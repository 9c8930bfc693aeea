import Hostboot.Lib.FixedReader
import Hostboot.Targeting.AttributeTank

/-!
# Tanks in chunks

`serializeAttributes` packs the attributes of a tank, one behind the other, into
chunks of at most a given size, and `deserializeAttributes` adds the attributes
of a chunk to a tank.  The size of an attribute is a number of 32 bits, for its
header of 16 bytes and its value.  It wraps for a value of nearly 4 GB, which is
a size that a damaged header can have.

`chunksRight_iff` says for which tanks and for which chunks the two calls are
right: no sum of sizes may wrap.
-/

namespace Hostboot.Targeting

open Lib Lib.Packed List

/-! ## One attribute -/

/-- `sizeof(AttributeHeader)`. -/
def HEADER_SIZE : Nat := 16

structure AttributeHeader where
  attrId : UInt32
  targetType : UInt32
  pos : UInt16
  unitPos : UInt8
  node : BitVec 4
  flags : BitVec 4
  valSize : UInt32

namespace AttributeHeader

/-- The header in memory. -/
def bytes (h : AttributeHeader) : Bytes :=
  u32 h.attrId ++ (u32 h.targetType ++ (u16 h.pos ++ ([h.unitPos] ++
    ([UInt8.ofNat (h.node.toNat * 16 + h.flags.toNat)] ++ u32 h.valSize))))

/-- The header, read field by field. -/
def read : Reader AttributeHeader := do
  let attrId ← Reader.u32
  let targetType ← Reader.u32
  let pos ← Reader.u16
  let unitPos ← Reader.byte
  let nodeAndFlags ← Reader.byte
  let valSize ← Reader.u32
  pure ⟨attrId, targetType, pos, unitPos, BitVec.ofNat 4 (nodeAndFlags.toNat / 16),
    BitVec.ofNat 4 nodeAndFlags.toNat, valSize⟩

end AttributeHeader

namespace Attribute

/-- `getHeader`. -/
def header (a : Attribute) : AttributeHeader :=
  ⟨a.attrId, a.targetType, a.pos, a.unitPos, a.node, a.flags, UInt32.ofNat a.value.length⟩

/-- The attribute with this header and value. -/
def ofHeader (h : AttributeHeader) (value : Bytes) (hsize : value.length = h.valSize.toNat) :
    Attribute :=
  ⟨h.attrId, h.targetType, h.pos, h.unitPos, h.node, h.flags, value, hsize ▸ h.valSize.toNat_lt⟩

/-- `getSize`, a number of 32 bits. -/
def getSize (a : Attribute) : Nat := (HEADER_SIZE + a.value.length) % 2 ^ 32

/-- What `serialize` copies. -/
def bytes (a : Attribute) : Bytes := a.header.bytes ++ a.value

/-- `deserialize`: the attribute and the size that is returned, or nothing for a size of zero.
The outer `none` is a read behind the buffer. -/
def deserialize (bs : Bytes) : Option (Option (Attribute × Nat)) :=
  match AttributeHeader.read bs with
  | none => some none
  | some (h, rest) =>
    if (HEADER_SIZE + h.valSize.toNat) % 2 ^ 32 ≤ bs.length then
      if hvalue : h.valSize.toNat ≤ rest.length then
        some (some (ofHeader h (rest.take h.valSize.toNat) (length_take_of_le hvalue),
          (HEADER_SIZE + h.valSize.toNat) % 2 ^ 32))
      else none
    else some none

end Attribute

/-! ## The two calls -/

/-- The inner loop of `serializeAttributes`: the buffer and the attributes that are left.  `none`
is a write behind the buffer. -/
def fillBuffer (passes : Attribute → Bool) (chunkSize : UInt32) :
    List Attribute → Bytes → Option (Bytes × List Attribute)
  | [], buffer => some (buffer, [])
  | a :: tank, buffer =>
    if passes a = false then fillBuffer passes chunkSize tank buffer
    else if chunkSize.toNat < (buffer.length + a.getSize) % 2 ^ 32 then
      if buffer.length = 0 then fillBuffer passes chunkSize tank buffer
      else some (buffer, a :: tank)
    else if chunkSize.toNat < buffer.length + a.bytes.length then none
    else fillBuffer passes chunkSize tank (buffer ++ a.bytes)

/-- The outer loop, with a number of rounds that is never used up. -/
def serializeLoop (passes : Attribute → Bool) (chunkSize : UInt32) :
    Nat → List Attribute → Option (List Bytes)
  | _, [] => some []
  | 0, _ :: _ => none
  | rounds + 1, a :: tank => do
    let (buffer, rest) ← fillBuffer passes chunkSize (a :: tank) []
    let chunks ← serializeLoop passes chunkSize rounds rest
    some (if buffer.length = 0 then chunks else buffer :: chunks)

def serializeAttributes (chunkSize : UInt32) (f : NodeFilter) (node : UInt8)
    (tank : List Attribute) : Option (List Bytes) :=
  serializeLoop (f.passes node) chunkSize tank.length tank

/-- The loop of `deserializeAttributes`, with a number of rounds that is never used up. -/
def deserializeLoop : Nat → Bytes → List Attribute → Option (List Attribute)
  | _, [], tank => some tank
  | 0, _ :: _, _ => none
  | rounds + 1, b :: bs, tank =>
    match Attribute.deserialize (b :: bs) with
    | none => none
    | some none => some tank
    | some (some (a, size)) => deserializeLoop rounds ((b :: bs).drop size) (tank ++ [a])

def deserializeAttributes (chunk : Bytes) (tank : List Attribute) : Option (List Attribute) :=
  deserializeLoop chunk.length chunk tank

/-- The chunks, one after the other, into an empty tank. -/
def deserializeAll (chunks : List Bytes) : Option (List Attribute) :=
  chunks.foldlM (fun tank chunk => deserializeAttributes chunk tank) []

/-! ## What is promised -/

/-- The chunks of a tank give back the attributes that pass the filter, and a chunk of any bytes is
read without going behind it. -/
structure ChunksRight (chunkSize : UInt32) (f : NodeFilter) (node : UInt8) (tank : List Attribute)
    (chunk : Bytes) : Prop where
  roundTrip : ∃ chunks, serializeAttributes chunkSize f node tank = some chunks ∧
    (∀ c ∈ chunks, c.length ≤ chunkSize.toNat) ∧
    deserializeAll chunks = some (tank.filter (f.passes node))
  safe : ∀ tank', (deserializeAttributes chunk tank').isSome = true

/-- The size of an attribute in a chunk. -/
def Attribute.chunkSize (a : Attribute) : Nat := HEADER_SIZE + a.value.length

/-- Attributes of these sizes are packed without a sum of `2 ^ 32` bytes or more, into a chunk of
which some bytes are used. -/
def Packs (chunkSize : Nat) : Nat → List Nat → Prop
  | _, [] => True
  | used, size :: sizes =>
    used + size < 2 ^ 32 ∧
      Packs chunkSize (if used + size ≤ chunkSize then used + size else size) sizes

/-- The value size of the header at the front of some bytes. -/
def valSizeAt (bs : Bytes) : Nat := Wire.decode ((bs.drop 12).take 4)

/-- No header of the attributes of a chunk has a size that wraps. -/
def HeadersSmall (bs : Bytes) : Prop :=
  HEADER_SIZE ≤ bs.length → HEADER_SIZE + valSizeAt bs < 2 ^ 32 ∧
    (HEADER_SIZE + valSizeAt bs ≤ bs.length → HeadersSmall (bs.drop (HEADER_SIZE + valSizeAt bs)))
termination_by bs.length
decreasing_by
  rw [length_drop, HEADER_SIZE] at *
  omega

/-! ## One attribute is read back -/

theorem AttributeHeader.length_bytes (h : AttributeHeader) : h.bytes.length = HEADER_SIZE := by
  simp [bytes, HEADER_SIZE]

theorem AttributeHeader.reads (h : AttributeHeader) : Reads read h.bytes h := by
  have hnode : h.node.toNat < 16 := h.node.isLt
  have hflags : h.flags.toNat < 16 := h.flags.isLt
  have hbyte : (UInt8.ofNat (h.node.toNat * 16 + h.flags.toNat)).toNat
      = h.node.toNat * 16 + h.flags.toNat := by
    rw [UInt8.toNat_ofNat']
    omega
  have hback : (⟨h.attrId, h.targetType, h.pos, h.unitPos,
      BitVec.ofNat 4 ((UInt8.ofNat (h.node.toNat * 16 + h.flags.toNat)).toNat / 16),
      BitVec.ofNat 4 (UInt8.ofNat (h.node.toNat * 16 + h.flags.toNat)).toNat,
      h.valSize⟩ : AttributeHeader) = h := by
    have hhigh : BitVec.ofNat 4 ((h.node.toNat * 16 + h.flags.toNat) / 16) = h.node := by
      apply BitVec.eq_of_toNat_eq
      rw [BitVec.toNat_ofNat]
      omega
    have hlow : BitVec.ofNat 4 (h.node.toNat * 16 + h.flags.toNat) = h.flags := by
      apply BitVec.eq_of_toNat_eq
      rw [BitVec.toNat_ofNat]
      omega
    rw [hbyte, hhigh, hlow]
  have hreads : Reads read h.bytes ⟨h.attrId, h.targetType, h.pos, h.unitPos,
      BitVec.ofNat 4 ((UInt8.ofNat (h.node.toNat * 16 + h.flags.toNat)).toNat / 16),
      BitVec.ofNat 4 (UInt8.ofNat (h.node.toNat * 16 + h.flags.toNat)).toNat, h.valSize⟩ :=
    (Reads.u32 h.attrId).bind <| (Reads.u32 h.targetType).bind <| (Reads.u16 h.pos).bind <|
      (Reads.byte h.unitPos).bind <|
      (Reads.byte (UInt8.ofNat (h.node.toNat * 16 + h.flags.toNat))).bind <|
      (Reads.u32 h.valSize).bind_nil <| Reads.pure _
  rwa [hback] at hreads

theorem takes_attributeHeader : ∃ value, Takes AttributeHeader.read HEADER_SIZE value ∧
    ∀ bs, HEADER_SIZE ≤ bs.length → (value bs).valSize.toNat = valSizeAt bs := by
  refine ⟨_, Takes.u32.bind fun _ => Takes.u32.bind fun _ => Takes.u16.bind fun _ =>
    Takes.byte.bind fun _ => Takes.byte.bind fun _ => Takes.u32.bind_pure, fun bs hbs => ?_⟩
  have hlen : ((bs.drop 12).take 4).length = 4 := by
    rw [length_take, length_drop]
    rw [HEADER_SIZE] at hbs
    omega
  have hlt := Wire.decode_lt hlen
  simp only [drop_drop]
  rw [UInt32.toNat_ofNat']
  exact Nat.mod_eq_of_lt hlt

theorem Attribute.deserialize_bytes {a : Attribute} (h : a.chunkSize < 2 ^ 32) (rest : Bytes) :
    deserialize (a.bytes ++ rest) = some (some (a, a.chunkSize)) := by
  have hsize : a.header.valSize.toNat = a.value.length := UInt32.toNat_ofNat_of_lt a.size
  have hread : AttributeHeader.read (a.bytes ++ rest) = some (a.header, a.value ++ rest) := by
    rw [bytes, append_assoc]
    exact a.header.reads _
  have hwhole : (HEADER_SIZE + a.header.valSize.toNat) % 2 ^ 32 = a.chunkSize := by
    rw [hsize]
    exact Nat.mod_eq_of_lt h
  have hin : a.chunkSize ≤ (a.bytes ++ rest).length := by
    rw [length_append, bytes, length_append, AttributeHeader.length_bytes, chunkSize]
    omega
  have hvalue : a.header.valSize.toNat ≤ (a.value ++ rest).length := by
    rw [hsize, length_append]
    omega
  have htake : (a.value ++ rest).take a.header.valSize.toNat = a.value :=
    take_left' hsize.symm
  rw [deserialize, hread]
  simp only [hwhole]
  rw [if_pos hin, dif_pos hvalue]
  simp only [htake]
  rfl

theorem Attribute.length_bytes (a : Attribute) : a.bytes.length = a.chunkSize := by
  rw [bytes, length_append, AttributeHeader.length_bytes, chunkSize]

/-- Whether bytes can be read as an attribute, or are given up, is decided by the sizes. -/
theorem Attribute.deserialize_cases {bs : Bytes} (hbs : bs.length < 2 ^ 32) :
    (bs.length < HEADER_SIZE ∧ deserialize bs = some none) ∨
      (HEADER_SIZE ≤ bs.length ∧ 2 ^ 32 ≤ HEADER_SIZE + valSizeAt bs ∧ deserialize bs = none) ∨
      (HEADER_SIZE ≤ bs.length ∧ HEADER_SIZE + valSizeAt bs < 2 ^ 32 ∧
        bs.length < HEADER_SIZE + valSizeAt bs ∧ deserialize bs = some none) ∨
      (HEADER_SIZE + valSizeAt bs ≤ bs.length ∧ HEADER_SIZE + valSizeAt bs < 2 ^ 32 ∧
        ∃ a, deserialize bs = some (some (a, HEADER_SIZE + valSizeAt bs))) := by
  obtain ⟨value, htakes, hval⟩ := takes_attributeHeader
  by_cases hin : HEADER_SIZE ≤ bs.length
  · have hv : (value bs).valSize.toNat = valSizeAt bs := hval bs hin
    have hlt : valSizeAt bs < 2 ^ 32 := hv ▸ (value bs).valSize.toNat_lt
    have hread := htakes.eq_some hin
    have hrest : (bs.drop HEADER_SIZE).length = bs.length - HEADER_SIZE := length_drop
    by_cases hwrap : 2 ^ 32 ≤ HEADER_SIZE + valSizeAt bs
    · refine .inr (.inl ⟨hin, hwrap, ?_⟩)
      have hsmall : (HEADER_SIZE + (value bs).valSize.toNat) % 2 ^ 32 ≤ bs.length := by
        rw [hv, HEADER_SIZE] at *
        omega
      have hbehind : ¬ (value bs).valSize.toNat ≤ (bs.drop HEADER_SIZE).length := by
        rw [hv, hrest]
        rw [HEADER_SIZE] at *
        omega
      rw [deserialize, hread]
      simp only [if_pos hsmall, dif_neg hbehind]
    · have hmod : (HEADER_SIZE + (value bs).valSize.toNat) % 2 ^ 32 = HEADER_SIZE + valSizeAt bs := by
        rw [hv]
        exact Nat.mod_eq_of_lt (Nat.lt_of_not_le hwrap)
      by_cases hfits : HEADER_SIZE + valSizeAt bs ≤ bs.length
      · refine .inr (.inr (.inr ⟨hfits, Nat.lt_of_not_le hwrap, ?_⟩))
        have hvalue : (value bs).valSize.toNat ≤ (bs.drop HEADER_SIZE).length := by
          rw [hv, hrest]
          omega
        rw [deserialize, hread]
        simp only [hmod, if_pos hfits, dif_pos hvalue]
        exact ⟨_, rfl⟩
      · refine .inr (.inr (.inl ⟨hin, Nat.lt_of_not_le hwrap, Nat.lt_of_not_le hfits, ?_⟩))
        rw [deserialize, hread]
        simp only [hmod, if_neg hfits]
  · refine .inl ⟨Nat.lt_of_not_le hin, ?_⟩
    rw [deserialize, htakes.eq_none (Nat.lt_of_not_le hin)]

/-! ## A chunk -/

theorem deserializeLoop_flatMap {as : List Attribute} (h : ∀ a ∈ as, a.chunkSize < 2 ^ 32)
    (rounds : Nat) (tank : List Attribute) (hrounds : (as.flatMap Attribute.bytes).length ≤ rounds) :
    deserializeLoop rounds (as.flatMap Attribute.bytes) tank = some (tank ++ as) := by
  induction as generalizing rounds tank with
  | nil => rw [flatMap_nil, deserializeLoop, append_nil]
  | cons a as ih =>
    obtain ⟨hsize, hrest⟩ := forall_mem_cons.mp h
    have hlen := a.length_bytes
    rw [flatMap_cons, length_append, hlen, Attribute.chunkSize, HEADER_SIZE] at hrounds
    obtain ⟨b, bs, hbytes⟩ : ∃ b bs, a.bytes ++ as.flatMap Attribute.bytes = b :: bs := by
      refine exists_cons_of_ne_nil fun hnil => ?_
      rw [append_eq_nil_iff] at hnil
      rw [hnil.1, Attribute.chunkSize, HEADER_SIZE] at hlen
      exact absurd hlen (by simp; omega)
    obtain ⟨rounds, rfl⟩ : ∃ n, rounds = n + 1 := Nat.exists_eq_succ_of_ne_zero (by omega)
    rw [flatMap_cons, hbytes, deserializeLoop, ← hbytes, a.deserialize_bytes hsize]
    simp only [← hlen, drop_left]
    rw [ih hrest _ _ (by omega), append_assoc, singleton_append]

theorem deserializeLoop_isSome (rounds : Nat) (bs : Bytes) (tank : List Attribute)
    (hbs : bs.length < 2 ^ 32) (hrounds : bs.length ≤ rounds) :
    (deserializeLoop rounds bs tank).isSome = true ↔ HeadersSmall bs := by
  induction rounds generalizing bs tank with
  | zero =>
    rw [eq_nil_of_length_eq_zero (Nat.le_zero.mp hrounds), deserializeLoop, HeadersSmall]
    exact iff_of_true rfl nofun
  | succ rounds ih =>
    cases bs with
    | nil =>
      rw [deserializeLoop, HeadersSmall]
      exact iff_of_true rfl nofun
    | cons b bs =>
      rw [deserializeLoop, HeadersSmall]
      rcases Attribute.deserialize_cases hbs with ⟨hshort, heq⟩ | ⟨hin, hwrap, heq⟩ |
        ⟨hin, hsmall, hlong, heq⟩ | ⟨hfits, hsmall, a, heq⟩
      · rw [heq]
        exact iff_of_true rfl fun h => absurd h (Nat.not_le.mpr hshort)
      · rw [heq]
        exact iff_of_false (by simp) fun h => absurd (h hin).1 (Nat.not_lt.mpr hwrap)
      · rw [heq]
        exact iff_of_true rfl fun _ => ⟨hsmall, fun h => absurd h (Nat.not_le.mpr hlong)⟩
      · have hdrop : ((b :: bs).drop (HEADER_SIZE + valSizeAt (b :: bs))).length
            = (b :: bs).length - (HEADER_SIZE + valSizeAt (b :: bs)) := length_drop
        have hin : HEADER_SIZE ≤ (b :: bs).length := Nat.le_trans (Nat.le_add_right _ _) hfits
        rw [heq, imp_iff_right hin, and_iff_right hsmall, imp_iff_right hfits]
        exact ih _ _ (by omega) (by rw [hdrop, HEADER_SIZE]; omega)

/-! ## Packing -/

/-- The sizes of the attributes that pass. -/
def passingSizes (passes : Attribute → Bool) (tank : List Attribute) : List Nat :=
  (tank.filter passes).map Attribute.chunkSize

variable {passes : Attribute → Bool} {chunkSize : UInt32} {tank : List Attribute}

theorem Attribute.getSize_eq {a : Attribute} (h : a.chunkSize ≤ chunkSize.toNat) :
    a.getSize = a.chunkSize :=
  Nat.mod_eq_of_lt (Nat.lt_of_le_of_lt h chunkSize.toNat_lt)

/-- A chunk that some attributes were put into: what became of them. -/
structure Filled (passes : Attribute → Bool) (chunkSize : UInt32) (tank : List Attribute)
    (buffer buffer' : Bytes) (rest : List Attribute) : Prop where
  taken : ∃ as, buffer' = buffer ++ as.flatMap Attribute.bytes ∧
    tank.filter passes = as ++ rest.filter passes
  fits : buffer'.length ≤ chunkSize.toNat
  suffix : rest <:+ tank
  /-- An empty buffer takes an attribute, or none is there. -/
  progress : buffer.length = 0 → rest <:+ tank.tail
  packs : Packs chunkSize.toNat buffer.length (passingSizes passes tank) ↔
    Packs chunkSize.toNat 0 (passingSizes passes rest)

theorem fillBuffer_spec (buffer : Bytes) (hfits : ∀ a ∈ tank, a.chunkSize ≤ chunkSize.toNat)
    (hbuffer : buffer.length ≤ chunkSize.toNat) :
    (∃ buffer' rest, fillBuffer passes chunkSize tank buffer = some (buffer', rest) ∧
        Filled passes chunkSize tank buffer buffer' rest) ∨
      fillBuffer passes chunkSize tank buffer = none ∧
        ¬ Packs chunkSize.toNat buffer.length (passingSizes passes tank) := by
  induction tank generalizing buffer with
  | nil =>
    exact .inl ⟨buffer, [], rfl, ⟨[], by simp, rfl⟩, hbuffer, suffix_refl _,
      fun _ => suffix_refl _, iff_of_true trivial trivial⟩
  | cons a tank ih =>
    obtain ⟨ha, hrest⟩ := forall_mem_cons.mp hfits
    have hlt := chunkSize.toNat_lt
    rw [fillBuffer]
    by_cases hpass : passes a = false
    · -- the attribute is skipped
      have hsizes : passingSizes passes (a :: tank) = passingSizes passes tank := by
        rw [passingSizes, filter_cons_of_neg (by simp [hpass]), passingSizes]
      rw [if_pos hpass, hsizes]
      refine (ih buffer hrest hbuffer).imp_left ?_
      rintro ⟨buffer', rest, heq, ⟨as, hbytes, htaken⟩, hfit, hsuffix, -, hpacks⟩
      refine ⟨buffer', rest, heq, ⟨as, hbytes, ?_⟩, hfit, hsuffix.trans (suffix_cons _ _),
        fun _ => hsuffix, hsizes ▸ hpacks⟩
      rw [filter_cons_of_neg (by simp [hpass]), htaken]
    · rw [Bool.not_eq_false] at hpass
      have hsizes : passingSizes passes (a :: tank) = a.chunkSize :: passingSizes passes tank := by
        rw [passingSizes, filter_cons_of_pos hpass, map_cons, passingSizes]
      rw [if_neg (by simp [hpass]), Attribute.getSize_eq ha, a.length_bytes, hsizes]
      by_cases hfull : chunkSize.toNat < (buffer.length + a.chunkSize) % 2 ^ 32
      · -- it does not fit, and the sum has not wrapped
        have hpos : buffer.length ≠ 0 := by
          intro hzero
          rw [hzero, Nat.zero_add, Nat.mod_eq_of_lt (by omega)] at hfull
          omega
        rw [if_pos hfull, if_neg hpos]
        refine .inl ⟨buffer, a :: tank, rfl, ⟨[], by simp, rfl⟩, hbuffer, suffix_refl _,
          fun hzero => absurd hzero hpos, ?_⟩
        rw [hsizes, Packs, Packs, if_neg (by omega), if_pos (by omega), Nat.zero_add]
        exact and_congr_left' (iff_of_true (by omega) (by omega))
      · rw [if_neg hfull]
        by_cases houtside : chunkSize.toNat < buffer.length + a.chunkSize
        · rw [if_pos houtside]
          refine .inr ⟨rfl, fun hpacks => ?_⟩
          rw [Packs] at hpacks
          omega
        · have hlen : (buffer ++ a.bytes).length = buffer.length + a.chunkSize := by
            rw [length_append, a.length_bytes]
          rw [if_neg houtside]
          have hstep : Packs chunkSize.toNat buffer.length
              (a.chunkSize :: passingSizes passes tank) ↔
                Packs chunkSize.toNat (buffer ++ a.bytes).length (passingSizes passes tank) := by
            rw [Packs, if_pos (Nat.le_of_not_lt houtside), hlen, and_iff_right (by omega)]
          rw [hstep]
          refine (ih (buffer ++ a.bytes) hrest (by omega)).imp_left ?_
          rintro ⟨buffer', rest, heq, ⟨as, hbytes, htaken⟩, hfit, hsuffix, -, hpacks⟩
          refine ⟨buffer', rest, heq, ⟨a :: as, ?_, ?_⟩, hfit,
            hsuffix.trans (suffix_cons _ _), fun _ => hsuffix, ?_⟩
          · rw [hbytes, flatMap_cons, append_assoc]
          · rw [filter_cons_of_pos hpass, htaken, cons_append]
          · rw [hsizes, hstep]
            exact hpacks

/-- The chunks of some groups of attributes. -/
def chunksOf (groups : List (List Attribute)) : List Bytes :=
  groups.map fun as => as.flatMap Attribute.bytes

/-- The attributes that pass are packed in their order, or a sum of sizes has wrapped. -/
theorem serializeLoop_spec (rounds : Nat) (hrounds : tank.length ≤ rounds)
    (hfits : ∀ a ∈ tank, a.chunkSize ≤ chunkSize.toNat) :
    (Packs chunkSize.toNat 0 (passingSizes passes tank) ∧
      ∃ groups, serializeLoop passes chunkSize rounds tank = some (chunksOf groups) ∧
        groups.flatten = tank.filter passes ∧
        ∀ c ∈ chunksOf groups, c.length ≤ chunkSize.toNat) ∨
      serializeLoop passes chunkSize rounds tank = none ∧
        ¬ Packs chunkSize.toNat 0 (passingSizes passes tank) := by
  induction rounds generalizing tank with
  | zero =>
    obtain rfl := eq_nil_of_length_eq_zero (Nat.le_zero.mp hrounds)
    exact .inl ⟨trivial, [], rfl, rfl, nofun⟩
  | succ rounds ih =>
    cases tank with
    | nil => exact .inl ⟨trivial, [], rfl, rfl, nofun⟩
    | cons a tank =>
      rw [serializeLoop]
      rcases fillBuffer_spec [] hfits (Nat.zero_le _) with
        ⟨buffer, rest, heq, ⟨as, hbytes, htaken⟩, hfit, hsuffix, hprogress, hpacks⟩ | ⟨heq, hnot⟩
      · have hshort : rest.length ≤ rounds :=
          Nat.le_trans (hprogress rfl).length_le (Nat.le_of_succ_le_succ hrounds)
        rw [length_nil] at hpacks
        rw [heq, Option.bind_eq_bind, Option.bind_some, hpacks]
        dsimp only
        rcases ih hshort (fun b hb => hfits b (hsuffix.subset hb)) with
          ⟨hrest, groups, hgroups, hflatten, hlengths⟩ | ⟨hnone, hnot⟩
        · refine .inl ⟨hrest, ?_⟩
          rw [hgroups, Option.bind_eq_bind, Option.bind_some]
          by_cases hempty : buffer.length = 0
          · -- nothing was put into the last buffer
            have has : as = [] := by
              rw [hbytes, nil_append] at hempty
              cases as with
              | nil => rfl
              | cons b as =>
                rw [flatMap_cons, length_append, b.length_bytes, Attribute.chunkSize,
                  HEADER_SIZE] at hempty
                omega
            rw [if_pos hempty]
            refine ⟨groups, rfl, ?_, hlengths⟩
            rw [hflatten, htaken, has, nil_append]
          · rw [if_neg hempty]
            refine ⟨as :: groups, ?_, ?_, ?_⟩
            · rw [hbytes, nil_append]
              rfl
            · rw [flatten_cons, hflatten, htaken]
            · rw [hbytes, nil_append] at hfit
              exact forall_mem_cons.mpr ⟨hfit, hlengths⟩
        · exact .inr ⟨by rw [hnone]; rfl, hnot⟩
      · exact .inr ⟨by rw [heq]; rfl, hnot⟩

theorem foldlM_chunksOf {groups : List (List Attribute)}
    (h : ∀ a ∈ groups.flatten, a.chunkSize < 2 ^ 32) (tank : List Attribute) :
    (chunksOf groups).foldlM (fun tank chunk => deserializeAttributes chunk tank) tank
      = some (tank ++ groups.flatten) := by
  induction groups generalizing tank with
  | nil => rw [flatten_nil, append_nil]; rfl
  | cons as groups ih =>
    rw [flatten_cons, forall_mem_append] at h
    have hone : deserializeAttributes (as.flatMap Attribute.bytes) tank = some (tank ++ as) :=
      deserializeLoop_flatMap h.1 _ _ (Nat.le_refl _)
    rw [chunksOf, map_cons, foldlM_cons, hone, Option.bind_eq_bind, Option.bind_some,
      flatten_cons, ← append_assoc]
    exact ih h.2 _

/-- The two calls are right exactly when no sum of sizes wraps: not one of the attributes that are
packed, and not one of the headers in the chunk that is read. -/
theorem chunksRight_iff (chunkSize : UInt32) (f : NodeFilter) (node : UInt8)
    (tank : List Attribute) (chunk : Bytes) (hfits : ∀ a ∈ tank, a.chunkSize ≤ chunkSize.toNat)
    (hchunk : chunk.length < 2 ^ 32) :
    ChunksRight chunkSize f node tank chunk ↔
      Packs chunkSize.toNat 0 (passingSizes (f.passes node) tank) ∧ HeadersSmall chunk := by
  have hsafe : (∀ tank', (deserializeAttributes chunk tank').isSome = true) ↔
      HeadersSmall chunk :=
    ⟨fun h => (deserializeLoop_isSome _ _ [] hchunk (Nat.le_refl _)).mp (h []),
      fun h tank' => (deserializeLoop_isSome _ _ tank' hchunk (Nat.le_refl _)).mpr h⟩
  rcases @serializeLoop_spec (f.passes node) chunkSize tank tank.length (Nat.le_refl _) hfits with
    ⟨hpacks, groups, hgroups, hflatten, hlengths⟩ | ⟨hnone, hnot⟩
  · have hsmall : ∀ a ∈ groups.flatten, a.chunkSize < 2 ^ 32 := fun a ha => by
      rw [hflatten] at ha
      exact Nat.lt_of_le_of_lt (hfits a (mem_of_mem_filter ha)) chunkSize.toNat_lt
    refine ⟨fun h => ⟨hpacks, hsafe.mp h.safe⟩, fun h => ⟨⟨_, hgroups, hlengths, ?_⟩, hsafe.mpr h.2⟩⟩
    rw [deserializeAll, foldlM_chunksOf hsmall, nil_append, hflatten]
  · refine iff_of_false (fun h => ?_) fun h => hnot h.1
    obtain ⟨chunks, hchunks, -⟩ := h.roundTrip
    rw [serializeAttributes, hnone] at hchunks
    exact absurd hchunks (by simp)

/-- An attribute with a value of two bytes. -/
def sampleAttribute : Attribute := ⟨1, 2, 3, 4, 5, 0, [7, 8], by decide⟩

/-- The chunk that is read has an attribute, and some bytes of a header behind it. -/
theorem chunksRight_sample :
    ChunksRight 18 .NODE_FILTER_NONE 0 [sampleAttribute, sampleAttribute]
      (sampleAttribute.bytes ++ [1, 2, 3]) := by
  refine (chunksRight_iff 18 .NODE_FILTER_NONE 0 [sampleAttribute, sampleAttribute]
    (sampleAttribute.bytes ++ [1, 2, 3]) ?_ ?_).mpr ⟨?_, ?_⟩
  · exact forall_mem_cons.mpr ⟨by decide, forall_mem_singleton.mpr (by decide)⟩
  · decide
  · exact ⟨by decide, by decide, trivial⟩
  · rw [HeadersSmall]
    refine fun _ => ⟨by decide, fun _ => ?_⟩
    rw [HeadersSmall]
    exact fun hin => absurd hin (by decide)

/-- A header alone, whose value has nearly 4 GB. -/
def damagedChunk : Bytes := zeros 12 ++ [255, 255, 255, 255]

/-- The size of the attribute wraps to 15, and the value is copied from behind the chunk. -/
theorem not_chunksRight_damaged :
    ¬ ChunksRight 4096 .NODE_FILTER_NONE 0 [] damagedChunk := by
  intro h
  have hnone : deserializeAttributes damagedChunk [] = none := by decide +kernel
  have hsome := h.safe []
  rw [hnone] at hsome
  exact absurd hsome (by simp)

end Hostboot.Targeting
