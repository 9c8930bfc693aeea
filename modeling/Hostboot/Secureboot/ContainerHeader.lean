import Hostboot.Lib.Fields
import Hostboot.Lib.Packed

/-!
# Secure container headers

`ContainerHeader` of `src/usr/secureboot/common/containerheader.C` parses the
header of a secure container into copies of the structures of the ROM, and
makes up such a header for an image that has none.

The header is a memory of bytes, and so is each structure; their numbers stand
high byte first, as on the processor.  `parse_header` follows the pointer
`iv_pHdrStart`; here the memory that it points to is an argument.  The copies
that it makes are written down as it goes.  Of an error log there is the reason
code.  The hash of the hardware keys, which no function of the class reads, is
left out.
-/

namespace Hostboot.Secureboot

open Hostboot.Lib

/-! ## The structures of the ROM -/

def ROM_MAGIC_NUMBER : Nat := 0x17082011

def ROM_VERSION : Nat := 1

def ROM_HASH_ALG : Nat := 1

def ROM_SIG_ALG : Nat := 1

def CONTAINER_VERSION : Nat := 1

def HEADER_VERSION : Nat := 1

def HASH_ALG_SHA512 : Nat := 1

def SIG_ALG_ECDSA521 : Nat := 1

def SW_KEY_COUNT_MIN : Nat := 1

def SW_KEY_COUNT_MAX : Nat := 3

def MAX_SECURE_HEADER_SIZE : Nat := 4096

def PAGE_SIZE : Nat := 4096

def SW_HDR_COMP_ID_SIZE_BYTES : Nat := 8

def ECID_SIZE : Nat := 16

/-- `sizeof(ecc_key_t)`, which is also `sizeof(ecc_signature_t)`. -/
def ECC_KEY_SIZE : Nat := 132

/-- `sizeof(SHA512_t)`. -/
def SHA512_SIZE : Nat := 64

/-- `ROM_container_raw`. -/
inductive RomContainerRaw where
  | magicNumber
  | version
  | containerSize
  | targetHrmor
  | stackPointer
  | hwPkeyA
  | hwPkeyB
  | hwPkeyC
  /-- The prefix header place holder. -/
  | prefixHdr
  deriving DecidableEq, Repr

/-- The fields, with their offsets. -/
def RomContainerRaw.field : RomContainerRaw → Field
  | magicNumber => ⟨0, 4⟩
  | version => ⟨4, 2⟩
  | containerSize => ⟨6, 8⟩
  | targetHrmor => ⟨14, 8⟩
  | stackPointer => ⟨22, 8⟩
  | hwPkeyA => ⟨30, ECC_KEY_SIZE⟩
  | hwPkeyB => ⟨162, ECC_KEY_SIZE⟩
  | hwPkeyC => ⟨294, ECC_KEY_SIZE⟩
  | prefixHdr => ⟨426, 8⟩

/-- `ROM_prefix_header_raw`. -/
inductive RomPrefixHeaderRaw where
  | version
  | hashAlg
  | sigAlg
  | codeStartOffset
  | reserved
  | flags
  | swKeyCount
  | payloadSize
  | payloadHash
  | ecidCount
  | ecid
  deriving DecidableEq, Repr

/-- The fields, with their offsets. -/
def RomPrefixHeaderRaw.field : RomPrefixHeaderRaw → Field
  | version => ⟨0, 2⟩
  | hashAlg => ⟨2, 1⟩
  | sigAlg => ⟨3, 1⟩
  | codeStartOffset => ⟨4, 8⟩
  | reserved => ⟨12, 8⟩
  | flags => ⟨20, 4⟩
  | swKeyCount => ⟨24, 1⟩
  | payloadSize => ⟨25, 8⟩
  | payloadHash => ⟨33, SHA512_SIZE⟩
  | ecidCount => ⟨97, 1⟩
  | ecid => ⟨98, ECID_SIZE⟩

/-- `ROM_prefix_data_raw`: three hardware signatures and three software keys. -/
inductive RomPrefixDataRaw where
  | hwSigA
  | swPkeyP
  deriving DecidableEq, Repr

/-- The first signature and the first key, with their offsets. -/
def RomPrefixDataRaw.field : RomPrefixDataRaw → Field
  | hwSigA => ⟨0, ECC_KEY_SIZE⟩
  | swPkeyP => ⟨3 * ECC_KEY_SIZE, ECC_KEY_SIZE⟩

/-- `ROM_sw_header_raw`. -/
inductive RomSwHeaderRaw where
  | version
  | hashAlg
  | sigAlg
  | codeStartOffset
  | componentId
  | flags
  | fwSecureVersion
  | payloadSize
  | payloadHash
  | ecidCount
  | ecid
  deriving DecidableEq, Repr

/-- The fields, with their offsets. -/
def RomSwHeaderRaw.field : RomSwHeaderRaw → Field
  | version => ⟨0, 2⟩
  | hashAlg => ⟨2, 1⟩
  | sigAlg => ⟨3, 1⟩
  | codeStartOffset => ⟨4, 8⟩
  | componentId => ⟨12, SW_HDR_COMP_ID_SIZE_BYTES⟩
  | flags => ⟨20, 4⟩
  | fwSecureVersion => ⟨24, 1⟩
  | payloadSize => ⟨25, 8⟩
  | payloadHash => ⟨33, SHA512_SIZE⟩
  | ecidCount => ⟨97, 1⟩
  | ecid => ⟨98, ECID_SIZE⟩

/-- The structures of `SecureHeaderInfo`. -/
inductive Group where
  | hwHdr
  | hwPrefixHdr
  | hwPrefixData
  | swHdr
  | swSig
  deriving DecidableEq, Repr

/-- `sizeof` of a structure. -/
def Group.size : Group → Nat
  | hwHdr => RomContainerRaw.prefixHdr.field.offset + RomContainerRaw.prefixHdr.field.size
  | hwPrefixHdr => RomPrefixHeaderRaw.ecid.field.offset + RomPrefixHeaderRaw.ecid.field.size
  | hwPrefixData => 3 * ECC_KEY_SIZE + 3 * ECC_KEY_SIZE
  | swHdr => RomSwHeaderRaw.ecid.field.offset + RomSwHeaderRaw.ecid.field.size
  | swSig => 3 * ECC_KEY_SIZE

/-! ## The class -/

/-- `sb_flags_t`. -/
structure SbFlags where
  hwHbFw : Bool
  hwOpal : Bool
  hwPhyp : Bool
  hwLabOverride : Bool
  hwKeyTransition : Bool
  swHash : Bool
  deriving DecidableEq, Repr

/-- The constructor of `sb_flags_t`. -/
def SbFlags.clear : SbFlags := ⟨false, false, false, false, false, false⟩

def HB_FW_FLAG : Nat := 0x80000000

def OPAL_FLAG : Nat := 0x40000000

def PHYP_FLAG : Nat := 0x20000000

def LAB_OVERRIDE_FLAG : Nat := 0x00080000

def KEY_TRANSITION_FLAG : Nat := 0x00000001

def HASH_PAGE_TABLE_FLAG : Nat := 0x80000000

/-- The reason codes of the error logs. -/
inductive ReasonCode where
  | RC_BAD_SECURE_MAGIC_NUM
  | RC_INVALID_ECID_COUNT
  | RC_CONT_HDR_NO_SPACE
  | RC_CONT_HDR_INVALID
  deriving DecidableEq, Repr

structure ContainerHeader where
  ivComponentId : Mem
  ivHeaderInfo : Group → Mem
  ivIsValid : Bool
  ivHdrBytesRead : Nat
  ivTotalSwKeysSize : Nat
  ivSbFlags : SbFlags
  ivFakeHeader : Mem

/-- A copy from `src` of the header to `off` of a structure. -/
structure Copy where
  src : Nat
  dest : Group
  off : Nat
  size : Nat
  deriving DecidableEq, Repr

/-- The object, the place in the header and the copies so far. -/
structure Parse where
  self : ContainerHeader
  lHdr : Nat
  copies : List Copy

/-- Go on unless there is an error. -/
def andThen (r : Parse × Option ReasonCode) (f : Parse → Parse × Option ReasonCode) :
    Parse × Option ReasonCode :=
  match r with
  | (s, some rc) => (s, some rc)
  | (s, none) => f s

namespace ContainerHeader

/-- The default constructor. -/
def new : ContainerHeader := ⟨fun _ => 0, fun _ _ => 0, false, 0, 0, .clear, fun _ => 0⟩

def initVars (self : ContainerHeader) : ContainerHeader :=
  { self with ivHeaderInfo := fun _ _ => 0, ivComponentId := fun _ => 0 }

def parseFlags (self : ContainerHeader) : ContainerHeader :=
  let hw := (self.ivHeaderInfo .hwPrefixHdr).get 0 RomPrefixHeaderRaw.flags.field
  let sw := (self.ivHeaderInfo .swHdr).get 0 RomSwHeaderRaw.flags.field
  { self with
    ivSbFlags :=
      { hwHbFw := hw &&& HB_FW_FLAG != 0
        hwOpal := hw &&& OPAL_FLAG != 0
        hwPhyp := hw &&& PHYP_FLAG != 0
        hwLabOverride := hw &&& LAB_OVERRIDE_FLAG != 0
        hwKeyTransition := hw &&& KEY_TRANSITION_FLAG != 0
        swHash := sw &&& HASH_PAGE_TABLE_FLAG != 0 } }

def validate (self : ContainerHeader) : ContainerHeader × Option ReasonCode :=
  let hwHdr := self.ivHeaderInfo .hwHdr
  let hwPrefixHdr := self.ivHeaderInfo .hwPrefixHdr
  let swHdr := self.ivHeaderInfo .swHdr
  let valid := self.ivHdrBytesRead ≤ MAX_SECURE_HEADER_SIZE
    && hwHdr.get 0 RomContainerRaw.magicNumber.field == ROM_MAGIC_NUMBER
    && hwHdr.get 0 RomContainerRaw.version.field == ROM_VERSION
    && hwPrefixHdr.get 0 RomPrefixHeaderRaw.version.field == ROM_VERSION
    && hwPrefixHdr.get 0 RomPrefixHeaderRaw.hashAlg.field == ROM_HASH_ALG
    && hwPrefixHdr.get 0 RomPrefixHeaderRaw.sigAlg.field == ROM_SIG_ALG
    && hwPrefixHdr.get 0 RomPrefixHeaderRaw.swKeyCount.field ≥ SW_KEY_COUNT_MIN
    && hwPrefixHdr.get 0 RomPrefixHeaderRaw.swKeyCount.field ≤ SW_KEY_COUNT_MAX
    && swHdr.get 0 RomSwHeaderRaw.payloadSize.field != 0
  ({ self with ivIsValid := valid }, if valid then none else some .RC_CONT_HDR_INVALID)

end ContainerHeader

/-- `ContainerHeader::safeMemCpyAndInc`. -/
def safeMemCpyAndInc (hdr : Mem) (dest : Group) (off size maxSize : Nat) (s : Parse) :
    Parse × Option ReasonCode :=
  let self := { s.self with ivHdrBytesRead := s.lHdr }
  if s.lHdr + size > MAX_SECURE_HEADER_SIZE ∨ size > maxSize then
    ({ s with self := self }, some .RC_CONT_HDR_NO_SPACE)
  else
    ({ self := { self with
        ivHeaderInfo := Function.update self.ivHeaderInfo dest
          ((self.ivHeaderInfo dest).copyTo off hdr s.lHdr size) }
       lHdr := s.lHdr + size
       copies := s.copies ++ [⟨s.lHdr, dest, off, size⟩] }, none)

/-- The check of the magic number. -/
def checkMagicNumber (s : Parse) : Parse × Option ReasonCode :=
  if (s.self.ivHeaderInfo .hwHdr).get 0 RomContainerRaw.magicNumber.field ≠ ROM_MAGIC_NUMBER then
    (s, some .RC_BAD_SECURE_MAGIC_NUM)
  else (s, none)

/-- `ContainerHeader::validateEcidCount`. -/
def validateEcidCount (ecidCount : Nat) (s : Parse) : Parse × Option ReasonCode :=
  if ecidCount ≠ 0 then (s, some .RC_INVALID_ECID_COUNT) else (s, none)

def MAX_SW_KEY_DATA : Nat := SW_KEY_COUNT_MAX * ECC_KEY_SIZE

/-- The copy of the software keys, with their total size. -/
def copySwKeys (hdr : Mem) (s : Parse) : Parse × Option ReasonCode :=
  let size :=
    (s.self.ivHeaderInfo .hwPrefixHdr).get 0 RomPrefixHeaderRaw.swKeyCount.field * ECC_KEY_SIZE
  safeMemCpyAndInc hdr .hwPrefixData RomPrefixDataRaw.swPkeyP.field.offset size MAX_SW_KEY_DATA
    { s with self := { s.self with ivTotalSwKeysSize := size } }

/-- `strncpy` of the component id into `iv_componentId`. -/
def copyComponentId (s : Parse) : Parse :=
  let id := (s.self.ivHeaderInfo .swHdr).bytesOf 0 RomSwHeaderRaw.componentId.field
  { s with self := { s.self with
      ivComponentId := s.self.ivComponentId.write 0
        (Packed.strncpy SW_HDR_COMP_ID_SIZE_BYTES id) } }

/-- `ContainerHeader::parse_header`, with the header at `iv_pHdrStart`. -/
def parseHeader (hdr : Mem) (self : ContainerHeader) : Parse × Option ReasonCode :=
  let max := MAX_SECURE_HEADER_SIZE
  andThen (safeMemCpyAndInc hdr .hwHdr 0 RomContainerRaw.prefixHdr.field.offset max ⟨self, 0, []⟩)
    fun s =>
  andThen (checkMagicNumber s) fun s =>
  andThen (safeMemCpyAndInc hdr .hwPrefixHdr 0 RomPrefixHeaderRaw.ecid.field.offset max s) fun s =>
  andThen (validateEcidCount
    ((s.self.ivHeaderInfo .hwPrefixHdr).get 0 RomPrefixHeaderRaw.ecidCount.field) s) fun s =>
  andThen (safeMemCpyAndInc hdr .hwPrefixData 0 RomPrefixDataRaw.swPkeyP.field.offset max s)
    fun s =>
  andThen (copySwKeys hdr s) fun s =>
  andThen (safeMemCpyAndInc hdr .swHdr 0 RomSwHeaderRaw.ecid.field.offset max s) fun s =>
  let s := copyComponentId s
  andThen (validateEcidCount
    ((s.self.ivHeaderInfo .swHdr).get 0 RomSwHeaderRaw.ecidCount.field) s) fun s =>
  andThen (safeMemCpyAndInc hdr .swSig 0 s.self.ivTotalSwKeysSize MAX_SW_KEY_DATA s) fun s =>
  let (self, errl) := s.self.parseFlags.validate
  ({ s with self := self }, errl)

namespace ContainerHeader

/-- `setHeader`, with the header at `i_header`. -/
def setHeader (self : ContainerHeader) (header : Mem) : Parse × Option ReasonCode :=
  parseHeader header self.initVars

/-- The bytes of the prefix header that `genFakeHeader` copies. -/
def fakePrefixHdr : Mem :=
  ((((Mem.set (fun _ => 0) RomPrefixHeaderRaw.version.field HEADER_VERSION).set
    RomPrefixHeaderRaw.hashAlg.field HASH_ALG_SHA512).set
    RomPrefixHeaderRaw.sigAlg.field SIG_ALG_ECDSA521).set
    RomPrefixHeaderRaw.swKeyCount.field 1).set
    RomPrefixHeaderRaw.payloadSize.field ECC_KEY_SIZE

/-- The bytes of the container header that `genFakeHeader` copies. -/
def fakeHwHdr (size : UInt64) : Mem :=
  ((Mem.set (fun _ => 0) RomContainerRaw.magicNumber.field ROM_MAGIC_NUMBER).set
    RomContainerRaw.version.field CONTAINER_VERSION).set
    RomContainerRaw.containerSize.field (size + UInt64.ofNat PAGE_SIZE).toNat

/-- The bytes of the software header that `genFakeHeader` copies. -/
def fakeSwHdr (size : UInt64) (compId : Bytes) : Mem :=
  ((((Mem.set (fun _ => 0) RomSwHeaderRaw.version.field 1).setBytes
    RomSwHeaderRaw.componentId.field (Packed.strncpy SW_HDR_COMP_ID_SIZE_BYTES compId)).set
    RomSwHeaderRaw.hashAlg.field HASH_ALG_SHA512).set
    RomSwHeaderRaw.sigAlg.field SIG_ALG_ECDSA521).set
    RomSwHeaderRaw.payloadSize.field size.toNat

/-- `genFakeHeader`.  The keys and the signatures are skipped. -/
def genFakeHeader (self : ContainerHeader) (size : UInt64) (compId : Bytes) : ContainerHeader :=
  let fake := self.ivFakeHeader
  let lHdr := 0
  let lSize := RomContainerRaw.prefixHdr.field.offset
  let fake := fake.copyTo lHdr (fakeHwHdr size) 0 lSize
  let lHdr := lHdr + lSize
  let ecidCount := fakePrefixHdr.get 0 RomPrefixHeaderRaw.ecidCount.field
  let lSize := RomPrefixHeaderRaw.ecid.field.offset + ecidCount * ECID_SIZE
  let fake := fake.copyTo lHdr fakePrefixHdr 0 lSize
  let lHdr := lHdr + lSize
  let lSize := RomPrefixDataRaw.swPkeyP.field.offset
    + fakePrefixHdr.get 0 RomPrefixHeaderRaw.swKeyCount.field * ECC_KEY_SIZE
  let lHdr := lHdr + lSize
  let lSize := RomSwHeaderRaw.ecid.field.offset + ecidCount * ECID_SIZE
  let fake := fake.copyTo lHdr (fakeSwHdr size compId) 0 lSize
  { self with ivFakeHeader := fake }

def setFakeHeader (self : ContainerHeader) (totalSize : UInt64) (compId : Bytes) :
    Parse × Option ReasonCode :=
  let self := self.initVars.genFakeHeader totalSize compId
  parseHeader self.ivFakeHeader self

def isValid (self : ContainerHeader) : Bool := self.ivIsValid

def totalContainerSize (self : ContainerHeader) : Nat :=
  (self.ivHeaderInfo .hwHdr).get 0 RomContainerRaw.containerSize.field

def payloadTextSize (self : ContainerHeader) : Nat :=
  (self.ivHeaderInfo .swHdr).get 0 RomSwHeaderRaw.payloadSize.field

def totalSwKeysSize (self : ContainerHeader) : Nat := self.ivTotalSwKeysSize

/-- `sb_flags`. -/
def sbFlags (self : ContainerHeader) : SbFlags := self.ivSbFlags

/-- `componentId`: the text in the nine bytes of `iv_componentId`. -/
def componentId (self : ContainerHeader) : Bytes :=
  Packed.cstr (self.ivComponentId.read 0 (SW_HDR_COMP_ID_SIZE_BYTES + 1))

end ContainerHeader

/-! ## Copies stay inside -/

/-- A copy stays inside the header and inside its structure. -/
def Copy.Inside (c : Copy) : Prop :=
  c.src + c.size ≤ MAX_SECURE_HEADER_SIZE ∧ c.off + c.size ≤ c.dest.size

/-- The copies so far stay inside. -/
def Parse.Inside (s : Parse) : Prop := ∀ c ∈ s.copies, c.Inside

variable {hdr hdr' : Mem} {s : Parse} {dest : Group} {off size maxSize : Nat}

theorem andThen_inside {r : Parse × Option ReasonCode} {f : Parse → Parse × Option ReasonCode}
    (hr : r.1.Inside) (hf : ∀ s, s.Inside → (f s).1.Inside) : (andThen r f).1.Inside := by
  obtain ⟨s, _ | rc⟩ := r
  · exact hf s hr
  · exact hr

/-- One copy: as its bound lets through only what the structure has room for. -/
theorem safeMemCpyAndInc_inside (h : s.Inside) (hroom : size ≤ maxSize → off + size ≤ dest.size) :
    (safeMemCpyAndInc hdr dest off size maxSize s).1.Inside := by
  unfold safeMemCpyAndInc
  dsimp only
  split
  · exact h
  · rename_i hfits
    intro c hc
    rcases List.mem_append.mp hc with hc | hc
    · exact h c hc
    · obtain rfl := List.mem_singleton.mp hc
      have hsrc : s.lHdr + size ≤ MAX_SECURE_HEADER_SIZE := by omega
      exact ⟨hsrc, hroom (by omega)⟩

theorem checkMagicNumber_inside (h : s.Inside) : (checkMagicNumber s).1.Inside := by
  unfold checkMagicNumber
  split <;> exact h

theorem validateEcidCount_inside (n : Nat) (h : s.Inside) : (validateEcidCount n s).1.Inside := by
  unfold validateEcidCount
  split <;> exact h

theorem copySwKeys_inside (h : s.Inside) : (copySwKeys hdr s).1.Inside := by
  have hroom (n : Nat) (hn : n ≤ MAX_SW_KEY_DATA) :
      RomPrefixDataRaw.swPkeyP.field.offset + n ≤ Group.hwPrefixData.size := by
    have hmax : MAX_SW_KEY_DATA = 396 := rfl
    have hoff : RomPrefixDataRaw.swPkeyP.field.offset = 396 := rfl
    have hsize : Group.hwPrefixData.size = 792 := rfl
    omega
  exact safeMemCpyAndInc_inside h (hroom _)

theorem parseHeader_inside (hdr : Mem) (self : ContainerHeader) :
    (parseHeader hdr self).1.Inside := by
  have hstart : Parse.Inside ⟨self, 0, []⟩ := fun c hc => absurd hc List.not_mem_nil
  unfold parseHeader
  refine andThen_inside ?_ fun s hs => ?_
  · exact safeMemCpyAndInc_inside hstart fun _ => by decide
  refine andThen_inside (checkMagicNumber_inside hs) fun s hs => ?_
  refine andThen_inside ?_ fun s hs => ?_
  · exact safeMemCpyAndInc_inside hs fun _ => by decide
  refine andThen_inside (validateEcidCount_inside _ hs) fun s hs => ?_
  refine andThen_inside ?_ fun s hs => ?_
  · exact safeMemCpyAndInc_inside hs fun _ => by decide
  refine andThen_inside (copySwKeys_inside hs) fun s hs => ?_
  refine andThen_inside ?_ fun s hs => ?_
  · exact safeMemCpyAndInc_inside hs fun _ => by decide
  refine andThen_inside (validateEcidCount_inside _ hs) fun s hs => ?_
  refine andThen_inside ?_ fun s hs => hs
  -- the bound on the size of the signatures is what there is room for
  exact safeMemCpyAndInc_inside hs fun hn => by rwa [Nat.zero_add]

theorem safeMemCpyAndInc_congr (h : ∀ i < MAX_SECURE_HEADER_SIZE, hdr i = hdr' i) :
    safeMemCpyAndInc hdr = safeMemCpyAndInc hdr' := by
  funext dest off size maxSize s
  unfold safeMemCpyAndInc
  dsimp only
  split
  · rfl
  · rename_i hfits
    have hread : hdr.read s.lHdr size = hdr'.read s.lHdr size :=
      Mem.read_congr fun i hi => h _ (by omega)
    simp only [Mem.copyTo, hread]

theorem parseHeader_congr (h : ∀ i < MAX_SECURE_HEADER_SIZE, hdr i = hdr' i) :
    parseHeader hdr = parseHeader hdr' := by
  unfold parseHeader copySwKeys
  rw [safeMemCpyAndInc_congr h]

/-! ## What parsing a header does -/

/-- The parse after a copy. -/
def Parse.copied (s : Parse) (hdr : Mem) (dest : Group) (off size : Nat) : Parse where
  self := { s.self with
    ivHdrBytesRead := s.lHdr
    ivHeaderInfo := Function.update s.self.ivHeaderInfo dest
      ((s.self.ivHeaderInfo dest).copyTo off hdr s.lHdr size) }
  lHdr := s.lHdr + size
  copies := s.copies ++ [⟨s.lHdr, dest, off, size⟩]

/-- The parse after a copy that was refused. -/
def Parse.refused (s : Parse) : Parse :=
  { s with self := { s.self with ivHdrBytesRead := s.lHdr } }

theorem safeMemCpyAndInc_of_fits {p : Nat} (hp : s.lHdr = p)
    (hsrc : p + size ≤ MAX_SECURE_HEADER_SIZE) (hmax : size ≤ maxSize) :
    safeMemCpyAndInc hdr dest off size maxSize s = (s.copied hdr dest off size, none) := by
  unfold safeMemCpyAndInc
  rw [if_neg (by omega)]
  rfl

theorem safeMemCpyAndInc_of_not_fits (h : maxSize < size) :
    safeMemCpyAndInc hdr dest off size maxSize s = (s.refused, some .RC_CONT_HDR_NO_SPACE) := by
  unfold safeMemCpyAndInc
  rw [if_pos (Or.inr h)]
  rfl

namespace Parse

@[simp] theorem lHdr_copied : (s.copied hdr dest off size).lHdr = s.lHdr + size := rfl

@[simp] theorem ivHdrBytesRead_copied :
    (s.copied hdr dest off size).self.ivHdrBytesRead = s.lHdr := rfl

theorem ivHeaderInfo_copied_of_ne {g : Group} (h : g ≠ dest) :
    (s.copied hdr dest off size).self.ivHeaderInfo g = s.self.ivHeaderInfo g :=
  Function.update_of_ne h _ _

theorem ivHeaderInfo_copied :
    (s.copied hdr dest off size).self.ivHeaderInfo dest
      = (s.self.ivHeaderInfo dest).copyTo off hdr s.lHdr size :=
  Function.update_self _ _ _

theorem bytesOf_copied {f : Field} (h : f.offset + f.size ≤ size) :
    ((s.copied hdr dest 0 size).self.ivHeaderInfo dest).bytesOf 0 f = hdr.bytesOf s.lHdr f := by
  rw [ivHeaderInfo_copied]
  exact Mem.bytesOf_copyTo h

theorem get_copied {f : Field} (h : f.offset + f.size ≤ size) :
    ((s.copied hdr dest 0 size).self.ivHeaderInfo dest).get 0 f = hdr.get s.lHdr f := by
  unfold Mem.get
  rw [bytesOf_copied h]

end Parse

/-! The numbers of a header that decide how it is parsed, and where they stand. -/

def prefixHdrPlace : Nat := RomContainerRaw.prefixHdr.field.offset

def prefixDataPlace : Nat := prefixHdrPlace + RomPrefixHeaderRaw.ecid.field.offset

def magicNumber (hdr : Mem) : Nat := hdr.get 0 RomContainerRaw.magicNumber.field

def hwEcidCount (hdr : Mem) : Nat := hdr.get prefixHdrPlace RomPrefixHeaderRaw.ecidCount.field

def swKeyCount (hdr : Mem) : Nat := hdr.get prefixHdrPlace RomPrefixHeaderRaw.swKeyCount.field

/-- The software header stands behind the software keys. -/
def swHdrPlace (hdr : Mem) : Nat :=
  prefixDataPlace + RomPrefixDataRaw.swPkeyP.field.offset + swKeyCount hdr * ECC_KEY_SIZE

def swEcidCount (hdr : Mem) : Nat := hdr.get (swHdrPlace hdr) RomSwHeaderRaw.ecidCount.field

/-! The object along the way. -/

def atMagic (hdr : Mem) (self : ContainerHeader) : Parse :=
  (⟨self, 0, []⟩ : Parse).copied hdr .hwHdr 0 RomContainerRaw.prefixHdr.field.offset

def atHwEcid (hdr : Mem) (self : ContainerHeader) : Parse :=
  (atMagic hdr self).copied hdr .hwPrefixHdr 0 RomPrefixHeaderRaw.ecid.field.offset

def atPrefixData (hdr : Mem) (self : ContainerHeader) : Parse :=
  (atHwEcid hdr self).copied hdr .hwPrefixData 0 RomPrefixDataRaw.swPkeyP.field.offset

/-- Before the keys are copied. -/
def atSwKeys (hdr : Mem) (self : ContainerHeader) : Parse :=
  let s := atPrefixData hdr self
  { s with self := { s.self with ivTotalSwKeysSize := swKeyCount hdr * ECC_KEY_SIZE } }

def atSwHdr (hdr : Mem) (self : ContainerHeader) : Parse :=
  (atSwKeys hdr self).copied hdr .hwPrefixData RomPrefixDataRaw.swPkeyP.field.offset
    (swKeyCount hdr * ECC_KEY_SIZE)

def atSwEcid (hdr : Mem) (self : ContainerHeader) : Parse :=
  copyComponentId ((atSwHdr hdr self).copied hdr .swHdr 0 RomSwHeaderRaw.ecid.field.offset)

def atSigs (hdr : Mem) (self : ContainerHeader) : Parse :=
  (atSwEcid hdr self).copied hdr .swSig 0 (swKeyCount hdr * ECC_KEY_SIZE)

@[simp] theorem andThen_none (s : Parse) (f : Parse → Parse × Option ReasonCode) :
    andThen (s, none) f = f s := rfl

@[simp] theorem andThen_some (s : Parse) (rc : ReasonCode)
    (f : Parse → Parse × Option ReasonCode) : andThen (s, some rc) f = (s, some rc) := rfl

theorem magicNumber_atMagic (self : ContainerHeader) :
    ((atMagic hdr self).self.ivHeaderInfo .hwHdr).get 0 RomContainerRaw.magicNumber.field
      = magicNumber hdr :=
  Parse.get_copied (by decide)

theorem prefixHdr_atHwEcid (self : ContainerHeader) {f : Field}
    (h : f.offset + f.size ≤ RomPrefixHeaderRaw.ecid.field.offset) :
    ((atHwEcid hdr self).self.ivHeaderInfo .hwPrefixHdr).get 0 f = hdr.get prefixHdrPlace f := by
  rw [atHwEcid, Parse.get_copied h]
  rfl

theorem hwEcidCount_atHwEcid (self : ContainerHeader) :
    ((atHwEcid hdr self).self.ivHeaderInfo .hwPrefixHdr).get 0
      RomPrefixHeaderRaw.ecidCount.field = hwEcidCount hdr :=
  prefixHdr_atHwEcid self (by decide)

theorem swKeyCount_atPrefixData (self : ContainerHeader) :
    ((atPrefixData hdr self).self.ivHeaderInfo .hwPrefixHdr).get 0
      RomPrefixHeaderRaw.swKeyCount.field = swKeyCount hdr := by
  rw [atPrefixData, Parse.ivHeaderInfo_copied_of_ne (by decide)]
  exact prefixHdr_atHwEcid self (by decide)

theorem lHdr_atMagic (self : ContainerHeader) : (atMagic hdr self).lHdr = prefixHdrPlace :=
  Nat.zero_add _

theorem lHdr_atHwEcid (self : ContainerHeader) : (atHwEcid hdr self).lHdr = prefixDataPlace := by
  rw [atHwEcid, Parse.lHdr_copied, lHdr_atMagic, prefixDataPlace]

theorem lHdr_atSwKeys (self : ContainerHeader) : (atSwKeys hdr self).lHdr
    = prefixDataPlace + RomPrefixDataRaw.swPkeyP.field.offset := by
  rw [← lHdr_atHwEcid self]
  rfl

theorem lHdr_atSwHdr (self : ContainerHeader) : (atSwHdr hdr self).lHdr = swHdrPlace hdr := by
  rw [atSwHdr, Parse.lHdr_copied, lHdr_atSwKeys, swHdrPlace]

theorem lHdr_atSwEcid (self : ContainerHeader) :
    (atSwEcid hdr self).lHdr = swHdrPlace hdr + RomSwHeaderRaw.ecid.field.offset := by
  rw [← lHdr_atSwHdr self]
  rfl

theorem swHdr_atSwEcid (self : ContainerHeader) {f : Field}
    (h : f.offset + f.size ≤ RomSwHeaderRaw.ecid.field.offset) :
    ((atSwEcid hdr self).self.ivHeaderInfo .swHdr).bytesOf 0 f
      = hdr.bytesOf (swHdrPlace hdr) f := by
  rw [← lHdr_atSwHdr self]
  change (((atSwHdr hdr self).copied hdr .swHdr 0 RomSwHeaderRaw.ecid.field.offset).self.ivHeaderInfo
    .swHdr).bytesOf 0 f = _
  exact Parse.bytesOf_copied h

theorem swEcidCount_atSwEcid (self : ContainerHeader) :
    ((atSwEcid hdr self).self.ivHeaderInfo .swHdr).get 0 RomSwHeaderRaw.ecidCount.field
      = swEcidCount hdr := by
  unfold Mem.get
  rw [swHdr_atSwEcid self (by decide)]
  rfl

theorem copySwKeys_of_le (self : ContainerHeader) (h : swKeyCount hdr ≤ SW_KEY_COUNT_MAX) :
    copySwKeys hdr (atPrefixData hdr self)
      = (atSwHdr hdr self, none) := by
  have hsize : swKeyCount hdr * ECC_KEY_SIZE ≤ MAX_SW_KEY_DATA := Nat.mul_le_mul_right _ h
  have hbound : 524 + 396 + MAX_SW_KEY_DATA ≤ MAX_SECURE_HEADER_SIZE := by decide
  unfold copySwKeys
  dsimp only
  rw [swKeyCount_atPrefixData self]
  exact safeMemCpyAndInc_of_fits (s := atSwKeys hdr self) rfl
    (Nat.le_trans (Nat.add_le_add_left hsize _) hbound) hsize

theorem copySwKeys_of_gt (self : ContainerHeader) (h : SW_KEY_COUNT_MAX < swKeyCount hdr) :
    copySwKeys hdr (atPrefixData hdr self)
      = ((atSwKeys hdr self).refused, some .RC_CONT_HDR_NO_SPACE) := by
  have hsize : MAX_SW_KEY_DATA < swKeyCount hdr * ECC_KEY_SIZE :=
    Nat.mul_lt_mul_of_pos_right h (by decide)
  unfold copySwKeys
  dsimp only
  rw [swKeyCount_atPrefixData self]
  exact safeMemCpyAndInc_of_not_fits (s := atSwKeys hdr self) hsize

theorem parseHeader_eq (hdr : Mem) (self : ContainerHeader) :
    parseHeader hdr self =
      if magicNumber hdr ≠ ROM_MAGIC_NUMBER then
        (atMagic hdr self, some .RC_BAD_SECURE_MAGIC_NUM)
      else if hwEcidCount hdr ≠ 0 then (atHwEcid hdr self, some .RC_INVALID_ECID_COUNT)
      else if SW_KEY_COUNT_MAX < swKeyCount hdr then
        ((atSwKeys hdr self).refused, some .RC_CONT_HDR_NO_SPACE)
      else if swEcidCount hdr ≠ 0 then (atSwEcid hdr self, some .RC_INVALID_ECID_COUNT)
      else
        ({ atSigs hdr self with self := (atSigs hdr self).self.parseFlags.validate.1 },
          (atSigs hdr self).self.parseFlags.validate.2) := by
  have hhw : safeMemCpyAndInc hdr .hwHdr 0 RomContainerRaw.prefixHdr.field.offset
      MAX_SECURE_HEADER_SIZE ⟨self, 0, []⟩ = (atMagic hdr self, none) :=
    safeMemCpyAndInc_of_fits (p := 0) rfl (by decide) (by decide)
  have hprefix : safeMemCpyAndInc hdr .hwPrefixHdr 0 RomPrefixHeaderRaw.ecid.field.offset
      MAX_SECURE_HEADER_SIZE (atMagic hdr self) = (atHwEcid hdr self, none) :=
    safeMemCpyAndInc_of_fits (p := 426) rfl (by decide) (by decide)
  have hdata : safeMemCpyAndInc hdr .hwPrefixData 0 RomPrefixDataRaw.swPkeyP.field.offset
      MAX_SECURE_HEADER_SIZE (atHwEcid hdr self) = (atPrefixData hdr self, none) :=
    safeMemCpyAndInc_of_fits (p := 524) rfl (by decide) (by decide)
  unfold parseHeader
  dsimp only
  rw [hhw, andThen_none, checkMagicNumber, magicNumber_atMagic self]
  by_cases hmagic : magicNumber hdr ≠ ROM_MAGIC_NUMBER
  · rw [if_pos hmagic, if_pos hmagic, andThen_some]
  rw [if_neg hmagic, if_neg hmagic, andThen_none, hprefix, andThen_none, validateEcidCount,
    hwEcidCount_atHwEcid self]
  by_cases hecid : hwEcidCount hdr ≠ 0
  · rw [if_pos hecid, if_pos hecid, andThen_some]
  rw [if_neg hecid, if_neg hecid, andThen_none, hdata, andThen_none]
  by_cases hkeys : SW_KEY_COUNT_MAX < swKeyCount hdr
  · rw [copySwKeys_of_gt self hkeys, if_pos hkeys, andThen_some]
  have hle : swKeyCount hdr ≤ SW_KEY_COUNT_MAX := Nat.le_of_not_lt hkeys
  have hsize : swKeyCount hdr * ECC_KEY_SIZE ≤ MAX_SW_KEY_DATA := Nat.mul_le_mul_right _ hle
  have hplace : swHdrPlace hdr ≤ 920 + MAX_SW_KEY_DATA := Nat.add_le_add_left hsize 920
  have hroom : 920 + MAX_SW_KEY_DATA + RomSwHeaderRaw.ecid.field.offset + MAX_SW_KEY_DATA
      ≤ MAX_SECURE_HEADER_SIZE := by decide
  have hsw : safeMemCpyAndInc hdr .swHdr 0 RomSwHeaderRaw.ecid.field.offset
      MAX_SECURE_HEADER_SIZE (atSwHdr hdr self)
      = ((atSwHdr hdr self).copied hdr .swHdr 0 RomSwHeaderRaw.ecid.field.offset, none) :=
    safeMemCpyAndInc_of_fits (lHdr_atSwHdr self) (by omega) (by decide)
  have hsig : safeMemCpyAndInc hdr .swSig 0 (swKeyCount hdr * ECC_KEY_SIZE) MAX_SW_KEY_DATA
      (atSwEcid hdr self) = (atSigs hdr self, none) :=
    safeMemCpyAndInc_of_fits (lHdr_atSwEcid self) (by omega) hsize
  rw [copySwKeys_of_le self hle, if_neg hkeys, andThen_none, hsw, andThen_none]
  change andThen (validateEcidCount (((atSwEcid hdr self).self.ivHeaderInfo .swHdr).get 0
    RomSwHeaderRaw.ecidCount.field) (atSwEcid hdr self)) _ = _
  rw [swEcidCount_atSwEcid self, validateEcidCount]
  by_cases hsw : swEcidCount hdr ≠ 0
  · rw [if_pos hsw, if_pos hsw, andThen_some]
  · rw [if_neg hsw, if_neg hsw, andThen_none]
    change andThen (safeMemCpyAndInc hdr .swSig 0 (swKeyCount hdr * ECC_KEY_SIZE) MAX_SW_KEY_DATA
      (atSwEcid hdr self)) _ = _
    rw [hsig, andThen_none]

/-! ## Rejection and validity by the bytes of a header -/

/-- The header is rejected before its flags are parsed. -/
def Early (hdr : Mem) : Prop :=
  magicNumber hdr ≠ ROM_MAGIC_NUMBER ∨ hwEcidCount hdr ≠ 0
    ∨ SW_KEY_COUNT_MAX < swKeyCount hdr ∨ swEcidCount hdr ≠ 0

instance (hdr : Mem) : Decidable (Early hdr) :=
  inferInstanceAs (Decidable (_ ∨ _))

/-- What `validate` looks at, once the header is not rejected before. -/
def wellFormed (hdr : Mem) : Bool :=
  hdr.get 0 RomContainerRaw.version.field == ROM_VERSION
    && hdr.get prefixHdrPlace RomPrefixHeaderRaw.version.field == ROM_VERSION
    && hdr.get prefixHdrPlace RomPrefixHeaderRaw.hashAlg.field == ROM_HASH_ALG
    && hdr.get prefixHdrPlace RomPrefixHeaderRaw.sigAlg.field == ROM_SIG_ALG
    && swKeyCount hdr ≥ SW_KEY_COUNT_MIN
    && hdr.get (swHdrPlace hdr) RomSwHeaderRaw.payloadSize.field != 0

theorem ivHeaderInfo_parseFlags (self : ContainerHeader) :
    self.parseFlags.ivHeaderInfo = self.ivHeaderInfo := rfl

theorem ivHdrBytesRead_parseFlags (self : ContainerHeader) :
    self.parseFlags.ivHdrBytesRead = self.ivHdrBytesRead := rfl

theorem hwHdr_atSigs (self : ContainerHeader) {f : Field}
    (h : f.offset + f.size ≤ RomContainerRaw.prefixHdr.field.offset) :
    ((atSigs hdr self).self.ivHeaderInfo .hwHdr).get 0 f = hdr.get 0 f := by
  change ((atMagic hdr self).self.ivHeaderInfo .hwHdr).get 0 f = _
  exact Parse.get_copied h

theorem prefixHdr_atSigs (self : ContainerHeader) {f : Field}
    (h : f.offset + f.size ≤ RomPrefixHeaderRaw.ecid.field.offset) :
    ((atSigs hdr self).self.ivHeaderInfo .hwPrefixHdr).get 0 f = hdr.get prefixHdrPlace f := by
  change ((atHwEcid hdr self).self.ivHeaderInfo .hwPrefixHdr).get 0 f = _
  exact prefixHdr_atHwEcid self h

theorem swHdr_atSigs (self : ContainerHeader) {f : Field}
    (h : f.offset + f.size ≤ RomSwHeaderRaw.ecid.field.offset) :
    ((atSigs hdr self).self.ivHeaderInfo .swHdr).get 0 f = hdr.get (swHdrPlace hdr) f := by
  change Wire.decode (((atSwEcid hdr self).self.ivHeaderInfo .swHdr).bytesOf 0 f) = _
  rw [swHdr_atSwEcid self h]
  rfl

theorem ivHdrBytesRead_atSigs (self : ContainerHeader) (h : swKeyCount hdr ≤ SW_KEY_COUNT_MAX) :
    (atSigs hdr self).self.ivHdrBytesRead ≤ MAX_SECURE_HEADER_SIZE := by
  have hkeys : swKeyCount hdr * ECC_KEY_SIZE ≤ SW_KEY_COUNT_MAX * ECC_KEY_SIZE :=
    Nat.mul_le_mul_right _ h
  have hroom : prefixDataPlace + RomPrefixDataRaw.swPkeyP.field.offset
      + SW_KEY_COUNT_MAX * ECC_KEY_SIZE + RomSwHeaderRaw.ecid.field.offset
      ≤ MAX_SECURE_HEADER_SIZE := by decide
  rw [atSigs, Parse.ivHdrBytesRead_copied, lHdr_atSwEcid, swHdrPlace]
  omega

/-- `validate`, by the bytes of a header that was not rejected before. -/
theorem validate_atSigs (h : ¬ Early hdr) (self : ContainerHeader) :
    (atSigs hdr self).self.parseFlags.validate
      = ({ (atSigs hdr self).self.parseFlags with ivIsValid := wellFormed hdr },
          if wellFormed hdr then none else some .RC_CONT_HDR_INVALID) := by
  obtain ⟨hmagic, -, hkeys, -⟩ : magicNumber hdr = ROM_MAGIC_NUMBER ∧ hwEcidCount hdr = 0
      ∧ swKeyCount hdr ≤ SW_KEY_COUNT_MAX ∧ swEcidCount hdr = 0 := by
    unfold Early at h
    omega
  have hread := ivHdrBytesRead_atSigs self hkeys
  unfold ContainerHeader.validate wellFormed
  dsimp only
  rw [ivHeaderInfo_parseFlags, ivHdrBytesRead_parseFlags, hwHdr_atSigs self (by decide), hwHdr_atSigs self (by decide),
    prefixHdr_atSigs self (by decide), prefixHdr_atSigs self (by decide),
    prefixHdr_atSigs self (by decide), prefixHdr_atSigs self (by decide),
    swHdr_atSigs self (by decide)]
  rw [show hdr.get 0 RomContainerRaw.magicNumber.field = magicNumber hdr from rfl,
    show hdr.get prefixHdrPlace RomPrefixHeaderRaw.swKeyCount.field = swKeyCount hdr from rfl]
  simp only [hread, hmagic, hkeys, decide_true, beq_self_eq_true, Bool.true_and, Bool.and_true]

/-- A header that is rejected early leaves the validity and the flags alone, and the
software key size too unless its keys were counted. -/
theorem parseHeader_early (h : Early hdr) (self : ContainerHeader) :
    (parseHeader hdr self).2 ≠ none
      ∧ (parseHeader hdr self).1.self.ivIsValid = self.ivIsValid
      ∧ (parseHeader hdr self).1.self.ivSbFlags = self.ivSbFlags
      ∧ (parseHeader hdr self).1.self.ivTotalSwKeysSize
          = if magicNumber hdr = ROM_MAGIC_NUMBER ∧ hwEcidCount hdr = 0 then
              swKeyCount hdr * ECC_KEY_SIZE
            else self.ivTotalSwKeysSize := by
  rw [parseHeader_eq]
  by_cases hmagic : magicNumber hdr ≠ ROM_MAGIC_NUMBER
  · rw [if_pos hmagic, if_neg (fun hok => hmagic hok.1)]
    exact ⟨Option.some_ne_none _, rfl, rfl, rfl⟩
  rw [if_neg hmagic]
  by_cases hecid : hwEcidCount hdr ≠ 0
  · rw [if_pos hecid, if_neg (fun hok => hecid hok.2)]
    exact ⟨Option.some_ne_none _, rfl, rfl, rfl⟩
  have hcounted : magicNumber hdr = ROM_MAGIC_NUMBER ∧ hwEcidCount hdr = 0 :=
    ⟨not_not.mp hmagic, not_not.mp hecid⟩
  rw [if_neg hecid, if_pos hcounted]
  by_cases hkeys : SW_KEY_COUNT_MAX < swKeyCount hdr
  · rw [if_pos hkeys]
    exact ⟨Option.some_ne_none _, rfl, rfl, rfl⟩
  rw [if_neg hkeys]
  by_cases hsw : swEcidCount hdr ≠ 0
  · rw [if_pos hsw]
    exact ⟨Option.some_ne_none _, rfl, rfl, rfl⟩
  · unfold Early at h
    omega

theorem parseHeader_late (h : ¬ Early hdr) (self : ContainerHeader) :
    parseHeader hdr self
      = ({ atSigs hdr self with
            self := { (atSigs hdr self).self.parseFlags with ivIsValid := wellFormed hdr } },
          if wellFormed hdr then none else some .RC_CONT_HDR_INVALID) := by
  have hvalidate := validate_atSigs h self
  unfold Early at h
  rw [parseHeader_eq, if_neg (by omega), if_neg (by omega), if_neg (by omega),
    if_neg (by omega), hvalidate]

section

variable (h : ¬ Early hdr) (self : ContainerHeader)
include h

theorem err_of_late :
    (parseHeader hdr self).2 = if wellFormed hdr then none else some .RC_CONT_HDR_INVALID := by
  rw [parseHeader_late h]

theorem isValid_of_late : (parseHeader hdr self).1.self.isValid = wellFormed hdr := by
  rw [parseHeader_late h]
  rfl

theorem payloadTextSize_of_late : (parseHeader hdr self).1.self.payloadTextSize
    = hdr.get (swHdrPlace hdr) RomSwHeaderRaw.payloadSize.field := by
  rw [parseHeader_late h, ContainerHeader.payloadTextSize]
  dsimp only
  rw [ivHeaderInfo_parseFlags, swHdr_atSigs self (by decide)]

theorem totalContainerSize_of_late : (parseHeader hdr self).1.self.totalContainerSize
    = hdr.get 0 RomContainerRaw.containerSize.field := by
  rw [parseHeader_late h, ContainerHeader.totalContainerSize]
  dsimp only
  rw [ivHeaderInfo_parseFlags, hwHdr_atSigs self (by decide)]

theorem totalSwKeysSize_of_late :
    (parseHeader hdr self).1.self.totalSwKeysSize = swKeyCount hdr * ECC_KEY_SIZE := by
  rw [parseHeader_late h]
  rfl

theorem ivComponentId_of_late : (parseHeader hdr self).1.self.ivComponentId
    = self.ivComponentId.write 0 (Packed.strncpy SW_HDR_COMP_ID_SIZE_BYTES
        (hdr.bytesOf (swHdrPlace hdr) RomSwHeaderRaw.componentId.field)) := by
  rw [parseHeader_late h, ← swHdr_atSwEcid self (by decide)]
  rfl

end

/-! ## The fake header -/

namespace ContainerHeader

theorem fakePrefixHdr_ecidCount : fakePrefixHdr.get 0 RomPrefixHeaderRaw.ecidCount.field = 0 := by
  decide

theorem fakePrefixHdr_swKeyCount :
    fakePrefixHdr.get 0 RomPrefixHeaderRaw.swKeyCount.field = 1 := by decide

variable {self : ContainerHeader} {totalSize : UInt64} {compId : Bytes} {f : Field}

/-- Where the fake software header stands: behind one key. -/
def fakeSwHdrPlace : Nat :=
  prefixDataPlace + RomPrefixDataRaw.swPkeyP.field.offset + ECC_KEY_SIZE

/-- The three structures of a fake header.  The bytes between them are those of the header
before. -/
theorem ivFakeHeader_genFakeHeader (self : ContainerHeader) (totalSize : UInt64)
    (compId : Bytes) : (self.genFakeHeader totalSize compId).ivFakeHeader
      = ((self.ivFakeHeader.copyTo 0 (fakeHwHdr totalSize) 0 prefixHdrPlace).copyTo prefixHdrPlace
          fakePrefixHdr 0 RomPrefixHeaderRaw.ecid.field.offset).copyTo fakeSwHdrPlace
          (fakeSwHdr totalSize compId) 0 RomSwHeaderRaw.ecid.field.offset := by
  unfold genFakeHeader
  dsimp only
  rw [fakePrefixHdr_ecidCount, fakePrefixHdr_swKeyCount, Nat.zero_mul, Nat.zero_add, Nat.one_mul]
  rfl

theorem fake_hwHdr (h : f.offset + f.size ≤ RomContainerRaw.prefixHdr.field.offset) :
    (self.genFakeHeader totalSize compId).ivFakeHeader.bytesOf 0 f
      = (fakeHwHdr totalSize).bytesOf 0 f := by
  have hplace : prefixHdrPlace = RomContainerRaw.prefixHdr.field.offset := rfl
  have hbehind : prefixHdrPlace ≤ fakeSwHdrPlace := by decide
  rw [ivFakeHeader_genFakeHeader, Mem.bytesOf_copyTo_of_apart (by omega),
    Mem.bytesOf_copyTo_of_apart (by omega), Mem.bytesOf_copyTo (by omega)]

theorem fake_prefixHdr (h : f.offset + f.size ≤ RomPrefixHeaderRaw.ecid.field.offset) :
    (self.genFakeHeader totalSize compId).ivFakeHeader.bytesOf prefixHdrPlace f
      = fakePrefixHdr.bytesOf 0 f := by
  have hbehind : prefixHdrPlace + RomPrefixHeaderRaw.ecid.field.offset ≤ fakeSwHdrPlace := by
    decide
  rw [ivFakeHeader_genFakeHeader, Mem.bytesOf_copyTo_of_apart (by omega), Mem.bytesOf_copyTo h]

theorem fake_swHdr (h : f.offset + f.size ≤ RomSwHeaderRaw.ecid.field.offset) :
    (self.genFakeHeader totalSize compId).ivFakeHeader.bytesOf fakeSwHdrPlace f
      = (fakeSwHdr totalSize compId).bytesOf 0 f := by
  rw [ivFakeHeader_genFakeHeader, Mem.bytesOf_copyTo h]

section

variable (self totalSize compId)

/-- The bytes that a fake header is parsed from. -/
def fake : Mem := (self.genFakeHeader totalSize compId).ivFakeHeader

theorem magicNumber_fake : magicNumber (self.fake totalSize compId) = ROM_MAGIC_NUMBER := by
  calc magicNumber (self.fake totalSize compId)
    _ = (fakeHwHdr totalSize).get 0 RomContainerRaw.magicNumber.field :=
        congrArg Wire.decode (fake_hwHdr (by decide))
    _ = ROM_MAGIC_NUMBER := by
        rw [fakeHwHdr, Mem.get_set_of_apart _ (by decide), Mem.get_set_of_apart _ (by decide),
          Mem.get_set (by decide)]

theorem version_fake :
    (self.fake totalSize compId).get 0 RomContainerRaw.version.field = CONTAINER_VERSION := by
  calc (self.fake totalSize compId).get 0 RomContainerRaw.version.field
    _ = (fakeHwHdr totalSize).get 0 RomContainerRaw.version.field :=
        congrArg Wire.decode (fake_hwHdr (by decide))
    _ = CONTAINER_VERSION := by
        rw [fakeHwHdr, Mem.get_set_of_apart _ (by decide), Mem.get_set (by decide)]

theorem containerSize_fake :
    (self.fake totalSize compId).get 0 RomContainerRaw.containerSize.field
      = (totalSize + UInt64.ofNat PAGE_SIZE).toNat := by
  calc (self.fake totalSize compId).get 0 RomContainerRaw.containerSize.field
    _ = (fakeHwHdr totalSize).get 0 RomContainerRaw.containerSize.field :=
        congrArg Wire.decode (fake_hwHdr (by decide))
    _ = (totalSize + UInt64.ofNat PAGE_SIZE).toNat := by
        rw [fakeHwHdr, Mem.get_set (UInt64.toNat_lt _)]

theorem get_prefixHdr_fake {f : Field}
    (h : f.offset + f.size ≤ RomPrefixHeaderRaw.ecid.field.offset) :
    (self.fake totalSize compId).get prefixHdrPlace f = fakePrefixHdr.get 0 f :=
  congrArg Wire.decode (fake_prefixHdr h)

theorem hwEcidCount_fake : hwEcidCount (self.fake totalSize compId) = 0 := by
  rw [hwEcidCount, get_prefixHdr_fake self totalSize compId (by decide),
    fakePrefixHdr_ecidCount]

theorem swKeyCount_fake : swKeyCount (self.fake totalSize compId) = 1 := by
  rw [swKeyCount, get_prefixHdr_fake self totalSize compId (by decide), fakePrefixHdr_swKeyCount]

theorem swHdrPlace_fake : swHdrPlace (self.fake totalSize compId) = fakeSwHdrPlace := by
  rw [swHdrPlace, swKeyCount_fake, Nat.one_mul, fakeSwHdrPlace]

theorem length_componentId (compId : Bytes) :
    (Packed.strncpy SW_HDR_COMP_ID_SIZE_BYTES compId).length
      = RomSwHeaderRaw.componentId.field.size :=
  Packed.length_strncpy _ _

theorem swEcidCount_fake : swEcidCount (self.fake totalSize compId) = 0 := by
  rw [swEcidCount, swHdrPlace_fake]
  calc (self.fake totalSize compId).get fakeSwHdrPlace RomSwHeaderRaw.ecidCount.field
    _ = (fakeSwHdr totalSize compId).get 0 RomSwHeaderRaw.ecidCount.field :=
        congrArg Wire.decode (fake_swHdr (by decide))
    _ = Mem.get (fun _ => 0) 0 RomSwHeaderRaw.ecidCount.field := by
        rw [fakeSwHdr, Mem.get_set_of_apart _ (by decide), Mem.get_set_of_apart _ (by decide),
          Mem.get_set_of_apart _ (by decide)]
        unfold Mem.get
        rw [Mem.bytesOf_setBytes_of_apart (length_componentId _) (by decide),
          Mem.bytesOf_set_of_apart _ (by decide)]
    _ = 0 := by decide

theorem payloadSize_fake :
    (self.fake totalSize compId).get fakeSwHdrPlace RomSwHeaderRaw.payloadSize.field
      = totalSize.toNat := by
  calc (self.fake totalSize compId).get fakeSwHdrPlace RomSwHeaderRaw.payloadSize.field
    _ = (fakeSwHdr totalSize compId).get 0 RomSwHeaderRaw.payloadSize.field :=
        congrArg Wire.decode (fake_swHdr (by decide))
    _ = totalSize.toNat := by rw [fakeSwHdr, Mem.get_set totalSize.toNat_lt]

theorem componentId_fake :
    (self.fake totalSize compId).bytesOf fakeSwHdrPlace RomSwHeaderRaw.componentId.field
      = Packed.strncpy SW_HDR_COMP_ID_SIZE_BYTES compId := by
  calc (self.fake totalSize compId).bytesOf fakeSwHdrPlace RomSwHeaderRaw.componentId.field
    _ = (fakeSwHdr totalSize compId).bytesOf 0 RomSwHeaderRaw.componentId.field :=
        fake_swHdr (by decide)
    _ = Packed.strncpy SW_HDR_COMP_ID_SIZE_BYTES compId := by
        rw [fakeSwHdr, Mem.bytesOf_set_of_apart _ (by decide),
          Mem.bytesOf_set_of_apart _ (by decide), Mem.bytesOf_set_of_apart _ (by decide),
          Mem.bytesOf_setBytes (length_componentId _)]

theorem not_early_fake : ¬ Early (self.fake totalSize compId) := by
  unfold Early
  rw [magicNumber_fake, hwEcidCount_fake, swKeyCount_fake, swEcidCount_fake]
  decide

theorem wellFormed_fake : wellFormed (self.fake totalSize compId) = (totalSize != 0) := by
  have hversion : fakePrefixHdr.get 0 RomPrefixHeaderRaw.version.field = ROM_VERSION := by decide
  have hhash : fakePrefixHdr.get 0 RomPrefixHeaderRaw.hashAlg.field = ROM_HASH_ALG := by decide
  have hsig : fakePrefixHdr.get 0 RomPrefixHeaderRaw.sigAlg.field = ROM_SIG_ALG := by decide
  have hsize : (totalSize.toNat != 0) = (totalSize != 0) := by
    rw [Bool.eq_iff_iff, bne_iff_ne, bne_iff_ne, ne_eq, ne_eq, ← UInt64.toNat_inj]
    rfl
  unfold wellFormed
  rw [version_fake, swKeyCount_fake, swHdrPlace_fake, payloadSize_fake,
    get_prefixHdr_fake self totalSize compId (by decide),
    get_prefixHdr_fake self totalSize compId (by decide),
    get_prefixHdr_fake self totalSize compId (by decide), hversion, hhash, hsig, hsize]
  rfl

end

theorem cstr_ivComponentId (bs : Bytes) (h : bs.length = SW_HDR_COMP_ID_SIZE_BYTES) :
    Packed.cstr ((Mem.write (fun _ => 0) 0 bs).read 0 (SW_HDR_COMP_ID_SIZE_BYTES + 1))
      = Packed.cstr bs := by
  have hfront : (Mem.write (fun _ => 0) 0 bs).read 0 SW_HDR_COMP_ID_SIZE_BYTES = bs := by
    rw [← h]
    exact Mem.holds_write _ 0 bs
  have hend : (Mem.write (fun _ => 0) 0 bs).read (0 + SW_HDR_COMP_ID_SIZE_BYTES) 1 = [0] := by
    have hout := Mem.write_sameOutside (fun _ => 0) 0 bs (0 + SW_HDR_COMP_ID_SIZE_BYTES) (by omega)
    exact congrArg (fun b => [b]) hout
  rw [Mem.read_add, hfront, hend, Packed.cstr_append_zero]

theorem setFakeHeader_eq (self : ContainerHeader) (totalSize : UInt64) (compId : Bytes) :
    self.setFakeHeader totalSize compId
      = parseHeader (self.initVars.fake totalSize compId)
          (self.initVars.genFakeHeader totalSize compId) := rfl

theorem err_setFakeHeader (self : ContainerHeader) (totalSize : UInt64) (compId : Bytes) :
    (self.setFakeHeader totalSize compId).2
      = if totalSize != 0 then none else some .RC_CONT_HDR_INVALID := by
  rw [setFakeHeader_eq, err_of_late (not_early_fake _ _ _), wellFormed_fake]

theorem isValid_setFakeHeader (self : ContainerHeader) (totalSize : UInt64) (compId : Bytes) :
    (self.setFakeHeader totalSize compId).1.self.isValid = (totalSize != 0) := by
  rw [setFakeHeader_eq, isValid_of_late (not_early_fake _ _ _), wellFormed_fake]

theorem payloadTextSize_setFakeHeader (self : ContainerHeader) (totalSize : UInt64)
    (compId : Bytes) :
    (self.setFakeHeader totalSize compId).1.self.payloadTextSize = totalSize.toNat := by
  rw [setFakeHeader_eq, payloadTextSize_of_late (not_early_fake _ _ _), swHdrPlace_fake,
    payloadSize_fake]

theorem totalContainerSize_setFakeHeader (self : ContainerHeader) (totalSize : UInt64)
    (compId : Bytes) :
    (self.setFakeHeader totalSize compId).1.self.totalContainerSize
      = (totalSize + UInt64.ofNat PAGE_SIZE).toNat := by
  rw [setFakeHeader_eq, totalContainerSize_of_late (not_early_fake _ _ _), containerSize_fake]

theorem componentId_setFakeHeader (self : ContainerHeader) (totalSize : UInt64)
    (compId : Bytes) :
    (self.setFakeHeader totalSize compId).1.self.componentId
      = (Packed.cstr compId).take SW_HDR_COMP_ID_SIZE_BYTES := by
  have hzero : (self.initVars.genFakeHeader totalSize compId).ivComponentId = fun _ => 0 := rfl
  rw [setFakeHeader_eq, componentId, ivComponentId_of_late (not_early_fake _ _ _), hzero,
    swHdrPlace_fake, componentId_fake, Packed.strncpy_strncpy,
    cstr_ivComponentId _ (Packed.length_strncpy _ _), Packed.cstr_strncpy, Packed.cstr_take]

/-- Parsing a header reads no byte behind its maximal size and writes no byte outside the
structures, and a fake header is parsed to what it was made of, whatever the object held. -/
theorem setHeader_inside_and_setFakeHeader_exact :
    (∀ (self : ContainerHeader) (header : Mem),
      (∀ c ∈ (self.setHeader header).1.copies,
        c.src + c.size ≤ MAX_SECURE_HEADER_SIZE ∧ c.off + c.size ≤ c.dest.size) ∧
      ∀ header' : Mem, (∀ i < MAX_SECURE_HEADER_SIZE, header i = header' i) →
        self.setHeader header = self.setHeader header') ∧
    ∀ (self : ContainerHeader) (totalSize : UInt64) (compId : Bytes), 0 < totalSize →
      (self.setFakeHeader totalSize compId).2 = none ∧
      (self.setFakeHeader totalSize compId).1.self.isValid = true ∧
      (self.setFakeHeader totalSize compId).1.self.payloadTextSize = totalSize.toNat ∧
      (self.setFakeHeader totalSize compId).1.self.totalContainerSize
        = (totalSize + UInt64.ofNat PAGE_SIZE).toNat ∧
      (self.setFakeHeader totalSize compId).1.self.componentId
        = (Packed.cstr compId).take SW_HDR_COMP_ID_SIZE_BYTES := by
  refine ⟨fun self header => ⟨?_, fun header' h => ?_⟩, fun self totalSize compId hsize => ?_⟩
  · unfold setHeader
    exact parseHeader_inside header self.initVars
  · unfold setHeader
    rw [parseHeader_congr h]
  · have hne : (totalSize != 0) = true := by
      rw [bne_iff_ne]
      rintro rfl
      exact absurd hsize (by decide)
    refine ⟨?_, ?_, payloadTextSize_setFakeHeader self totalSize compId,
      totalContainerSize_setFakeHeader self totalSize compId,
      componentId_setFakeHeader self totalSize compId⟩
    · rw [err_setFakeHeader, if_pos hne]
    · rw [isValid_setFakeHeader, hne]

/-- An image of one page that is named `HBI`. -/
theorem setHeader_inside_and_setFakeHeader_exact_page :
    (ContainerHeader.new.setFakeHeader 4096 [72, 66, 73]).2 = none ∧
      (ContainerHeader.new.setFakeHeader 4096 [72, 66, 73]).1.self.componentId = [72, 66, 73] :=
  have h := setHeader_inside_and_setFakeHeader_exact.2 .new 4096 [72, 66, 73] (by decide)
  ⟨h.1, h.2.2.2.2⟩

end ContainerHeader

end Hostboot.Secureboot
