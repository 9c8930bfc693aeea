import Mathlib.Algebra.Group.Nat.Defs
import Mathlib.Data.List.Basic

/-!
# The table of contents of the boot flash

`checkHeader` looks at the header of the partition table and `parseEntries`
records a section for each entry it knows.  All arithmetic is the machine's:
the fields of a header, of an entry and of a section are 32 bits wide,
`PAGESIZE` and `sizeof` are 64 bits wide.
-/

namespace Hostboot.Pnor.Ffs

/-! ## Constants -/

def FFS_MAGIC : UInt32 := 0x50415254
def SUPPORTED_FFS_VERSION : UInt32 := 1
def PAGESIZE : UInt64 := 4096
def PAGESIZE_PLUS_ECC : UInt32 := 4608
def FFS_HDR_SIZE : UInt64 := 48
def FFS_ENTRY_SIZE : UInt64 := 128
def FFS_INTEG_ECC_PROTECT : UInt16 := 0x8000
def FFS_VERS_SHA512 : UInt8 := 0x80
def INVALID_FLASH_OFFSET : UInt32 := 0xFFFFFFFF

/-- `pnorUtilErrorCodes`. -/
def NO_ERROR : UInt32 := 0
def INVALID_MAGIC : UInt32 := 0x1
def UNSUPPORTED_FFS : UInt32 := 0x2
def INVALID_ENTRY_SIZE : UInt32 := 0x4
def NO_ENTRIES : UInt32 := 0x8
def INVALID_BLOCK_SIZE : UInt32 := 0x10
def INVALID_BLOCK_COUNT : UInt32 := 0x20
def INVALID_HEADER_SIZE : UInt32 := 0x40
def ENTRY_CHECKSUM_ERR : UInt32 := 0x80
def ENTRY_EXTENDS_BEYOND_FLASH : UInt32 := 0x100
def HEADER_ERR : UInt32 := 0x800
def ENTRY_ERR : UInt32 := 0x1000

/-! ## Data -/

inductive SectionId
  | TOC | HB_EXT_CODE | HB_BASE_CODE | SBE_IPL | HCODE | PAYLOAD | HB_RUNTIME | HB_DATA
  | GUARD_DATA | HB_ERRLOGS | DIMM_JEDEC_VPD | MODULE_VPD | NVRAM | OCC | FIRDATA | ATTR_TMP
  | ATTR_PERM | CAPP | VERSION | HB_BOOTLOADER | TEST | TESTRO | BACKUP_PART | RINGOVD | WOFDATA
  | SBKT | HB_VOLATILE | TESTLOAD | HDAT | EECACHE | OCMBFW | DEVTREE | BOOTKERNEL | HCODE_LID
  | HB_DATA_RW | PSPD
  deriving DecidableEq, Repr

/-- The options the code is built with. -/
structure Config where
  BOOTLOADER : Bool
  CONFIG_SECUREBOOT : Bool
  CONFIG_DEVTREE : Bool
  CONFIG_LOAD_PHYP_FROM_BOOTKERNEL : Bool

/-- `ffs_entry`. -/
structure FfsEntry where
  name : Vector UInt8 16
  base : UInt32
  size : UInt32
  pid : UInt32
  id : UInt32
  type : UInt32
  flags : UInt32
  actual : UInt32
  resvd : Vector UInt32 4
  user : Vector UInt32 16
  checksum : UInt32
  deriving DecidableEq

/-- `ffs_hdr`, and the entries behind it. -/
structure FfsHdr where
  magic : UInt32
  version : UInt32
  size : UInt32
  entry_size : UInt32
  entry_count : UInt32
  block_size : UInt32
  block_count : UInt32
  entries : Nat → FfsEntry

/-- `SectionData_t`. -/
structure SectionData where
  id : SectionId
  virtAddr : UInt64
  flashAddr : UInt32
  size : UInt32
  chip : UInt8
  version : UInt8
  integrity : UInt16
  misc : UInt8
  secure : Bool

/-- The table of sections. -/
abbrev Toc : Type := SectionId → SectionData

def initializeSections : Toc :=
  fun id => ⟨id, 0, INVALID_FLASH_OFFSET, 0, 0, 0, 0, 0, false⟩

/-! ## Header -/

def checkHeader (hdr : FfsHdr) (errCode : UInt32) : UInt32 :=
  let spaceUsed := FFS_ENTRY_SIZE * hdr.entry_count.toUInt64
  let errCode := if hdr.magic ≠ FFS_MAGIC then errCode ||| INVALID_MAGIC else errCode
  let errCode :=
    if hdr.version ≠ SUPPORTED_FFS_VERSION then errCode ||| UNSUPPORTED_FFS else errCode
  let errCode :=
    if hdr.entry_size.toUInt64 ≠ FFS_ENTRY_SIZE then errCode ||| INVALID_ENTRY_SIZE else errCode
  let errCode := if hdr.entry_count = 0 then errCode ||| NO_ENTRIES else errCode
  let errCode :=
    if hdr.block_size.toUInt64 ≠ PAGESIZE then errCode ||| INVALID_BLOCK_SIZE else errCode
  let errCode := if hdr.block_count = 0 then errCode ||| INVALID_BLOCK_COUNT else errCode
  let errCode :=
    if spaceUsed > (hdr.block_size * hdr.size).toUInt64 - FFS_HDR_SIZE then
      errCode ||| INVALID_HEADER_SIZE
    else errCode
  if errCode ≠ NO_ERROR then errCode ||| HEADER_ERR else errCode

/-! ## Entries -/

/-- A word of four bytes. -/
def word (b0 b1 b2 b3 : UInt8) : UInt32 :=
  b0.toUInt32 <<< 24 ||| b1.toUInt32 <<< 16 ||| b2.toUInt32 <<< 8 ||| b3.toUInt32

/-- The words of an entry as it lies in memory. -/
def FfsEntry.words (e : FfsEntry) : List UInt32 :=
  [word e.name[0] e.name[1] e.name[2] e.name[3], word e.name[4] e.name[5] e.name[6] e.name[7],
    word e.name[8] e.name[9] e.name[10] e.name[11],
    word e.name[12] e.name[13] e.name[14] e.name[15],
    e.base, e.size, e.pid, e.id, e.type, e.flags, e.actual]
    ++ e.resvd.toList ++ e.user.toList ++ [e.checksum]

def pnor_ffs_checksum (words : List UInt32) : UInt32 :=
  words.foldl (· ^^^ ·) 0

/-- The fields of `ffs_hb_user_t` that are read. -/
def FfsEntry.chip (e : FfsEntry) : UInt8 := (e.user[0] >>> 24).toUInt8
def FfsEntry.dataInteg (e : FfsEntry) : UInt16 := e.user[0].toUInt16
def FfsEntry.verCheck (e : FfsEntry) : UInt8 := (e.user[1] >>> 24).toUInt8
def FfsEntry.miscFlags (e : FfsEntry) : UInt8 := (e.user[1] >>> 16).toUInt8

def SectionIdToStringArr (cfg : Config) : List (SectionId × String) :=
  let extCode : List (SectionId × String) := [(.HB_EXT_CODE, "HBI")]
  let others : List (SectionId × String) :=
    [(.SBE_IPL, "SBE"), (.HCODE, "HCODE"), (.PAYLOAD, "PAYLOAD"), (.HB_RUNTIME, "HBRT"),
      (.HB_DATA, "HBD"), (.GUARD_DATA, "GUARD"), (.HB_ERRLOGS, "HBEL"),
      (.DIMM_JEDEC_VPD, "DJVPD"), (.MODULE_VPD, "MVPD"), (.NVRAM, "NVRAM"), (.OCC, "OCC"),
      (.FIRDATA, "FIRDATA"), (.ATTR_TMP, "ATTR_TMP"), (.ATTR_PERM, "ATTR_PERM"),
      (.CAPP, "CAPP"), (.VERSION, "VERSION"), (.HB_BOOTLOADER, "HBBL"), (.TEST, "TEST"),
      (.TESTRO, "TESTRO"), (.BACKUP_PART, "BACKUP_PART"), (.RINGOVD, "RINGOVD"),
      (.WOFDATA, "WOFDATA"), (.SBKT, "SBKT"), (.HB_VOLATILE, "HB_VOLATILE"),
      (.TESTLOAD, "TESTLOAD"), (.HDAT, "HDAT"), (.EECACHE, "EECACHE"), (.OCMBFW, "OCMBFW")]
  let devtree : List (SectionId × String) := [(.DEVTREE, "DEVTREE")]
  let bootkernel : List (SectionId × String) := [(.BOOTKERNEL, "BOOTKERNEL")]
  let last : List (SectionId × String) :=
    [(.HCODE_LID, "HCODE_LID"), (.HB_DATA_RW, "HBD_RW"), (.PSPD, "PSPD")]
  (.TOC, "part") :: ((if cfg.BOOTLOADER then [] else extCode) ++
    (.HB_BASE_CODE, "HBB") :: if cfg.BOOTLOADER then [] else
      others ++ (if cfg.CONFIG_DEVTREE then devtree else [])
        ++ (if cfg.CONFIG_LOAD_PHYP_FROM_BOOTKERNEL then bootkernel else []) ++ last)

/-- Whether `strcmp` of a section name and the name of an entry is zero.  All
section names are shorter than the field, which decides on its own. -/
def sameName (s : String) (name : List UInt8) : Bool :=
  (s.toList.map fun c => c.toNat.toUInt8) ++ [0] <+: name

def getSectionEnum (cfg : Config) (e : FfsEntry) : Option SectionId :=
  ((SectionIdToStringArr cfg).find? fun s => sameName s.2 e.name.toList).map (·.1)

def isEnforcedSecureSection (cfg : Config) (id : SectionId) : Bool :=
  if cfg.BOOTLOADER then id = .HB_BASE_CODE
  else if cfg.CONFIG_SECUREBOOT then
    let bootkernel : List SectionId :=
      if cfg.CONFIG_LOAD_PHYP_FROM_BOOTKERNEL then [.BOOTKERNEL] else []
    let last : List SectionId :=
      [.SBKT, .OCC, .HCODE, .HCODE_LID, .HB_RUNTIME, .WOFDATA, .PSPD, .CAPP, .TESTLOAD,
        .VERSION, .OCMBFW]
    id ∈ SectionId.HB_BOOTLOADER :: .HB_EXT_CODE :: .HB_DATA :: .SBE_IPL :: .PAYLOAD ::
      (bootkernel ++ last)
  else false

/-- `ALIGN_PAGE_DOWN`, stored in 32 bits. -/
def ALIGN_PAGE_DOWN (u : UInt32) : UInt32 := (u.toUInt64 - u.toUInt64 % PAGESIZE).toUInt32

/-- The section as the entry describes it, in bytes. -/
def SectionData.describe (hdr : FfsHdr) (e : FfsEntry) (s : SectionData) : SectionData :=
  { s with
    size := (e.size.toUInt64 * hdr.block_size.toUInt64).toUInt32
    flashAddr := (e.base.toUInt64 * hdr.block_size.toUInt64).toUInt32
    chip := e.chip
    integrity := e.dataInteg
    version := e.verCheck
    misc := e.miscFlags }

/-- Whether the section exceeds the flash. -/
def SectionData.exceedsFlash (hdr : FfsHdr) (s : SectionData) : Bool :=
  (s.flashAddr + s.size).toUInt64 > hdr.block_count.toUInt64 * PAGESIZE

/-- The size without the check bytes. -/
def SectionData.withoutEcc (s : SectionData) : SectionData :=
  if s.integrity = FFS_INTEG_ECC_PROTECT then
    { s with size := ALIGN_PAGE_DOWN (s.size * 8 / 9) }
  else s

/-- The `secure` flag. -/
def SectionData.enforce (cfg : Config) (id : SectionId) (s : SectionData) : SectionData :=
  { s with
    secure := if cfg.CONFIG_SECUREBOOT ∨ cfg.BOOTLOADER then isEnforcedSecureSection cfg id
      else false }

/-- Whether the header page of the section is skipped. -/
def SectionData.hasHeader (s : SectionData) : Bool :=
  s.version &&& FFS_VERS_SHA512 ≠ 0 ∧ ¬ s.secure

/-- The section behind its header page. -/
def SectionData.skipHeader (s : SectionData) : SectionData :=
  if s.hasHeader then
    { s with
      flashAddr := s.flashAddr
        + (if s.integrity = FFS_INTEG_ECC_PROTECT then PAGESIZE_PLUS_ECC else PAGESIZE.toUInt32)
      size := s.size - PAGESIZE.toUInt32 }
  else s

/-- The loop of `parseEntries`: the error code, the table and the entry in
error. -/
def parseLoop (cfg : Config) (hdr : FfsHdr) :
    List FfsEntry → UInt32 → Toc → UInt32 × Toc × Option FfsEntry
  | [], errCode, toc => (errCode, toc, none)
  | e :: es, errCode, toc =>
    if pnor_ffs_checksum e.words ≠ 0 then
      (errCode ||| ENTRY_ERR ||| ENTRY_CHECKSUM_ERR, toc, some e)
    else match getSectionEnum cfg e with
      | none => parseLoop cfg hdr es errCode toc
      | some secId =>
        let s := (toc secId).describe hdr e
        if s.exceedsFlash hdr then
          (errCode ||| ENTRY_ERR ||| ENTRY_EXTENDS_BEYOND_FLASH, Function.update toc secId s,
            some e)
        else
          parseLoop cfg hdr es errCode
            (Function.update toc secId ((s.withoutEcc.enforce cfg secId).skipHeader))

/-- The entries the loop goes through. -/
def FfsHdr.table (hdr : FfsHdr) : List FfsEntry :=
  (List.range hdr.entry_count.toNat).map hdr.entries

def parseEntries (cfg : Config) (hdr : FfsHdr) (errCode : UInt32) (toc : Toc) :
    UInt32 × Toc × Option FfsEntry :=
  parseLoop cfg hdr hdr.table errCode toc

/-! ## An accepted header -/

theorem flag_clear {errCode flag : UInt32} {p : Prop} [Decidable p] (hflag : flag ≠ 0)
    (h : (if p then errCode ||| flag else errCode) = 0) : errCode = 0 ∧ ¬ p := by
  by_cases hp : p
  · rw [if_pos hp] at h
    exact absurd (UInt32.or_eq_zero_iff.mp h).2 hflag
  · rw [if_neg hp] at h
    exact ⟨h, hp⟩

theorem checkHeader_ok {hdr : FfsHdr} (h : checkHeader hdr NO_ERROR = NO_ERROR) :
    hdr.entry_count ≠ 0 ∧ hdr.block_size.toUInt64 = PAGESIZE ∧
      FFS_ENTRY_SIZE * hdr.entry_count.toUInt64
        ≤ (hdr.block_size * hdr.size).toUInt64 - FFS_HDR_SIZE := by
  unfold checkHeader at h
  obtain ⟨h, -⟩ := flag_clear (by decide) h
  obtain ⟨h, hsize⟩ := flag_clear (by decide) h
  obtain ⟨h, -⟩ := flag_clear (by decide) h
  obtain ⟨h, hblock⟩ := flag_clear (by decide) h
  obtain ⟨h, hcount⟩ := flag_clear (by decide) h
  exact ⟨hcount, not_not.mp hblock, UInt64.not_lt.mp hsize⟩

/-- All entries lie inside the bytes of the partition table. -/
def EntriesInTable (hdr : FfsHdr) : Prop :=
  48 + 128 * hdr.entry_count.toNat ≤ hdr.block_size.toNat * hdr.size.toNat

/-- The number of bytes of the table is not a multiple of `2 ^ 32`, or the
entries fit all the same. -/
def TableFits (hdr : FfsHdr) : Prop :=
  hdr.size.toNat % 2 ^ 20 ≠ 0 ∨ hdr.entry_count.toNat < 32 * hdr.size.toNat

theorem block_size_toNat {hdr : FfsHdr} (h : hdr.block_size.toUInt64 = PAGESIZE) :
    hdr.block_size.toNat = 4096 :=
  congrArg UInt64.toNat h

/-- The entries of an accepted header are in the table unless the 32-bit
product wraps to zero, and with it the bound below zero. -/
theorem entriesInTable_iff {hdr : FfsHdr} (h : checkHeader hdr NO_ERROR = NO_ERROR) :
    EntriesInTable hdr ↔ TableFits hdr := by
  obtain ⟨_, hblock, hspace⟩ := checkHeader_ok h
  have hblock' := block_size_toNat hblock
  have hspace' := UInt64.le_iff_toNat_le.mp hspace
  have hcount := hdr.entry_count.toNat_lt
  have hsize := hdr.size.toNat_lt
  rw [UInt64.toNat_mul, UInt64.toNat_sub, UInt32.toNat_toUInt64, UInt32.toNat_toUInt64,
    UInt32.toNat_mul, hblock', show FFS_ENTRY_SIZE.toNat = 128 from rfl,
    show FFS_HDR_SIZE.toNat = 48 from rfl] at hspace'
  unfold EntriesInTable TableFits
  rw [hblock']
  omega

/-! ## What the loop records -/

/-- The section before its header page is skipped. -/
def SectionData.content (cfg : Config) (hdr : FfsHdr) (e : FfsEntry) (id : SectionId)
    (s : SectionData) : SectionData :=
  ((s.describe hdr e).withoutEcc).enforce cfg id

/-- The last entry of a section. -/
def lastEntry (cfg : Config) (id : SectionId) (es : List FfsEntry) : Option FfsEntry :=
  es.reverse.find? fun e => getSectionEnum cfg e = some id

theorem lastEntry_cons (cfg : Config) (id : SectionId) (e : FfsEntry) (es : List FfsEntry) :
    lastEntry cfg id (e :: es)
      = (lastEntry cfg id es).or (if getSectionEnum cfg e = some id then some e else none) := by
  unfold lastEntry
  rw [List.reverse_cons, List.find?_append]
  by_cases h : getSectionEnum cfg e = some id <;> simp [h]

/-- A section after the loop: the work of its last entry, or untouched. -/
def Recorded (cfg : Config) (hdr : FfsHdr) (es : List FfsEntry) (toc toc' : Toc)
    (id : SectionId) : Prop :=
  (lastEntry cfg id es = none → toc' id = toc id) ∧
    ∀ e, lastEntry cfg id es = some e →
      ∃ s : SectionData, (s.describe hdr e).exceedsFlash hdr = false ∧
        toc' id = (s.content cfg hdr e id).skipHeader

theorem parseLoop_recorded (cfg : Config) (hdr : FfsHdr) (es : List FfsEntry) :
    ∀ (errCode : UInt32) (toc : Toc), (parseLoop cfg hdr es errCode toc).1 = NO_ERROR →
      ∀ id, Recorded cfg hdr es toc (parseLoop cfg hdr es errCode toc).2.1 id := by
  induction es with
  | nil =>
    intro errCode toc _ id
    exact ⟨fun _ => rfl, fun e he => by cases he⟩
  | cons e es ih =>
    intro errCode toc h id
    rw [parseLoop] at h ⊢
    by_cases hsum : pnor_ffs_checksum e.words ≠ 0
    · rw [if_pos hsum] at h
      exact absurd (UInt32.or_eq_zero_iff.mp h).2 (by decide)
    rw [if_neg hsum] at h ⊢
    unfold Recorded
    rw [lastEntry_cons]
    cases hsec : getSectionEnum cfg e with
    | none =>
      rw [hsec] at h
      rw [if_neg (by simp), Option.or_none]
      exact ih errCode toc h id
    | some secId =>
      rw [hsec] at h
      dsimp only at h ⊢
      by_cases hexceeds : ((toc secId).describe hdr e).exceedsFlash hdr = true
      · rw [if_pos hexceeds] at h
        exact absurd (UInt32.or_eq_zero_iff.mp h).2 (by decide)
      rw [if_neg hexceeds] at h ⊢
      obtain ⟨hnone, hsome⟩ := ih errCode _ h id
      cases hlast : lastEntry cfg id es with
      | some e' =>
        rw [Option.some_or]
        exact ⟨fun habs => (by cases habs), fun e'' he => hsome e'' (hlast.trans he)⟩
      | none =>
        rw [Option.none_or]
        by_cases hid : secId = id
        · subst hid
          rw [if_pos rfl, hnone hlast, Function.update_self]
          refine ⟨fun habs => (by cases habs), fun e' he => ?_⟩
          have hsame := Option.some.inj he
          subst hsame
          exact ⟨toc secId, Bool.eq_false_iff.mpr hexceeds, rfl⟩
        · have hid' : ¬ some secId = some id := fun habs => hid (Option.some.inj habs)
          rw [if_neg hid', hnone hlast, Function.update_of_ne (Ne.symm hid)]
          exact ⟨fun _ => rfl, fun e' he => by cases he⟩

/-! ## One section -/

/-- The number of flash bytes that the size of a section stands for. -/
def SectionData.flashBytes (s : SectionData) : Nat :=
  if s.integrity = FFS_INTEG_ECC_PROTECT then 9 * s.size.toNat / 8 else s.size.toNat

/-- A section that lies inside the flash, and whose size is the size of its
content less the header page that is skipped. -/
structure Safe (cfg : Config) (hdr : FfsHdr) (id : SectionId) (e : FfsEntry) (s : SectionData) :
    Prop where
  in_flash : s.flashAddr.toNat + s.flashBytes ≤ hdr.block_count.toNat * 4096
  no_wrap : (s.content cfg hdr e id).hasHeader →
    s.size.toNat + 4096 = (s.content cfg hdr e id).size.toNat

/-- The pages of content of an entry. -/
def FfsEntry.pages (e : FfsEntry) : Nat :=
  if e.dataInteg = FFS_INTEG_ECC_PROTECT then 8 * (e.size.toNat % 2 ^ 17) / 9
  else e.size.toNat % 2 ^ 20

/-- The flash bytes of one page of content. -/
def FfsEntry.pageBytes (e : FfsEntry) : Nat :=
  if e.dataInteg = FFS_INTEG_ECC_PROTECT then 4608 else 4096

/-- Whether the header page of an entry is skipped. -/
def FfsEntry.skips (cfg : Config) (id : SectionId) (e : FfsEntry) : Prop :=
  e.verCheck &&& FFS_VERS_SHA512 ≠ 0 ∧
    ¬ ((cfg.CONFIG_SECUREBOOT ∨ cfg.BOOTLOADER) ∧ isEnforcedSecureSection cfg id)

/-- The entry has the page that is skipped, and its end does not wrap around
the 32 bits of an address.  Where it does wrap, the address wraps with it in the
skip, or the flash is larger than what an address can reach. -/
def EntryFits (cfg : Config) (hdr : FfsHdr) (id : SectionId) (e : FfsEntry) : Prop :=
  (e.skips cfg id → e.pages ≠ 0) ∧
    (e.base.toNat % 2 ^ 20 + e.size.toNat % 2 ^ 20 < 2 ^ 20 ∨
      (e.skips cfg id ∧ e.base.toNat % 2 ^ 20 = 2 ^ 20 - 1) ∨
      4096 * (e.base.toNat % 2 ^ 20) + e.pages * e.pageBytes ≤ hdr.block_count.toNat * 4096)

section Section

variable {cfg : Config} {hdr : FfsHdr} {e : FfsEntry} {s : SectionData} {id : SectionId}

theorem describe_bytes (h : hdr.block_size.toUInt64 = PAGESIZE) (n : UInt32) :
    (n.toUInt64 * hdr.block_size.toUInt64).toUInt32.toNat = 4096 * (n.toNat % 2 ^ 20) := by
  have hlt := n.toNat_lt
  rw [h, UInt64.toNat_toUInt32, UInt64.toNat_mul, UInt32.toNat_toUInt64,
    show PAGESIZE.toNat = 4096 from rfl]
  omega

theorem ALIGN_PAGE_DOWN_toNat (u : UInt32) : (ALIGN_PAGE_DOWN u).toNat = 4096 * (u.toNat / 4096) := by
  have hlt := u.toNat_lt
  unfold ALIGN_PAGE_DOWN
  rw [UInt64.toNat_toUInt32, UInt64.toNat_sub, UInt64.toNat_mod, UInt32.toNat_toUInt64,
    show PAGESIZE.toNat = 4096 from rfl]
  omega

theorem content_size (h : hdr.block_size.toUInt64 = PAGESIZE) :
    (s.content cfg hdr e id).size.toNat = 4096 * e.pages := by
  have hsize := describe_bytes h e.size
  unfold SectionData.content SectionData.enforce SectionData.withoutEcc FfsEntry.pages
  by_cases hecc : e.dataInteg = FFS_INTEG_ECC_PROTECT
  · rw [if_pos (show (s.describe hdr e).integrity = FFS_INTEG_ECC_PROTECT from hecc), if_pos hecc]
    show (ALIGN_PAGE_DOWN ((e.size.toUInt64 * hdr.block_size.toUInt64).toUInt32 * 8 / 9)).toNat = _
    rw [ALIGN_PAGE_DOWN_toNat, UInt32.toNat_div, UInt32.toNat_mul, hsize,
      show (8 : UInt32).toNat = 8 from rfl, show (9 : UInt32).toNat = 9 from rfl,
      Nat.div_div_eq_div_mul]
    have hbits : 4096 * (e.size.toNat % 2 ^ 20) * 8 % 2 ^ 32 = 32768 * (e.size.toNat % 2 ^ 17) := by
      omega
    rw [hbits]
    omega
  · rw [if_neg (show ¬ (s.describe hdr e).integrity = FFS_INTEG_ECC_PROTECT from hecc),
      if_neg hecc]
    exact hsize

theorem content_flashAddr (h : hdr.block_size.toUInt64 = PAGESIZE) :
    (s.content cfg hdr e id).flashAddr.toNat = 4096 * (e.base.toNat % 2 ^ 20) := by
  have hkept : (s.content cfg hdr e id).flashAddr = (s.describe hdr e).flashAddr := by
    unfold SectionData.content SectionData.enforce SectionData.withoutEcc
    split <;> rfl
  rw [hkept]
  exact describe_bytes h e.base

theorem content_integrity : (s.content cfg hdr e id).integrity = e.dataInteg := by
  unfold SectionData.content SectionData.enforce SectionData.withoutEcc
  split <;> rfl

theorem content_hasHeader : (s.content cfg hdr e id).hasHeader = true ↔ e.skips cfg id := by
  have hversion : (s.content cfg hdr e id).version = e.verCheck := by
    unfold SectionData.content SectionData.enforce SectionData.withoutEcc
    split <;> rfl
  have hsecure : (s.content cfg hdr e id).secure
      = if cfg.CONFIG_SECUREBOOT ∨ cfg.BOOTLOADER then isEnforcedSecureSection cfg id
        else false := rfl
  unfold SectionData.hasHeader FfsEntry.skips
  rw [hversion, hsecure]
  by_cases hcfg : cfg.CONFIG_SECUREBOOT ∨ cfg.BOOTLOADER <;> simp [hcfg]

theorem exceedsFlash_false (h : hdr.block_size.toUInt64 = PAGESIZE)
    (hfits : (s.describe hdr e).exceedsFlash hdr = false) :
    (4096 * (e.base.toNat % 2 ^ 20) + 4096 * (e.size.toNat % 2 ^ 20)) % 2 ^ 32
      ≤ hdr.block_count.toNat * 4096 := by
  have hlt := hdr.block_count.toNat_lt
  have hle := UInt64.not_lt.mp (of_decide_eq_false hfits)
  have hle' := UInt64.le_iff_toNat_le.mp hle
  rw [UInt32.toNat_toUInt64, UInt32.toNat_add, UInt64.toNat_mul, UInt32.toNat_toUInt64,
    show PAGESIZE.toNat = 4096 from rfl] at hle'
  have hsize : (s.describe hdr e).size.toNat = 4096 * (e.size.toNat % 2 ^ 20) :=
    describe_bytes h e.size
  have haddr : (s.describe hdr e).flashAddr.toNat = 4096 * (e.base.toNat % 2 ^ 20) :=
    describe_bytes h e.base
  rw [hsize, haddr] at hle'
  omega

theorem FfsEntry.span_le (e : FfsEntry) :
    e.pages * e.pageBytes ≤ 4096 * (e.size.toNat % 2 ^ 20) := by
  unfold FfsEntry.pages FfsEntry.pageBytes
  by_cases hecc : e.dataInteg = FFS_INTEG_ECC_PROTECT
  · have hlow : e.size.toNat % 2 ^ 17 ≤ e.size.toNat % 2 ^ 20 := by omega
    have hdiv := Nat.div_mul_le_self (8 * (e.size.toNat % 2 ^ 17)) 9
    rw [if_pos hecc, if_pos hecc]
    omega
  · rw [if_neg hecc, if_neg hecc]
    omega

theorem flashBytes_pages {n : Nat} (hinteg : s.integrity = e.dataInteg)
    (hsize : s.size.toNat = 4096 * n) : s.flashBytes = n * e.pageBytes := by
  unfold SectionData.flashBytes FfsEntry.pageBytes
  rw [hinteg, hsize]
  split <;> omega

theorem skipHeader_pos (hflag : s.hasHeader) (hinteg : s.integrity = e.dataInteg) :
    s.skipHeader.flashAddr.toNat = (s.flashAddr.toNat + e.pageBytes) % 2 ^ 32 ∧
      s.skipHeader.size.toNat = (2 ^ 32 - 4096 + s.size.toNat) % 2 ^ 32 ∧
      s.skipHeader.integrity = e.dataInteg := by
  unfold SectionData.skipHeader FfsEntry.pageBytes
  rw [if_pos hflag, hinteg]
  refine ⟨?_, UInt32.toNat_sub _ _, rfl⟩
  rw [UInt32.toNat_add]
  split <;> rfl

theorem safe_iff (h : hdr.block_size.toUInt64 = PAGESIZE)
    (hfits : (s.describe hdr e).exceedsFlash hdr = false) :
    Safe cfg hdr id e (s.content cfg hdr e id).skipHeader ↔ EntryFits cfg hdr id e := by
  have hend := exceedsFlash_false h hfits
  have hsize : (s.content cfg hdr e id).size.toNat = 4096 * e.pages := content_size h
  have haddr : (s.content cfg hdr e id).flashAddr.toNat = 4096 * (e.base.toNat % 2 ^ 20) :=
    content_flashAddr h
  have hinteg : (s.content cfg hdr e id).integrity = e.dataInteg := content_integrity
  have hheader : (s.content cfg hdr e id).hasHeader = true ↔ e.skips cfg id := content_hasHeader
  have hspan := e.span_le
  generalize hc : s.content cfg hdr e id = c at hsize haddr hinteg hheader ⊢
  generalize hA : e.base.toNat % 2 ^ 20 = A at hend haddr
  generalize hS : e.size.toNat % 2 ^ 20 = S at hend hspan
  have hAlt : A < 2 ^ 20 := by omega
  have hSlt : S < 2 ^ 20 := by omega
  have hplt : e.pages ≤ S := by
    unfold FfsEntry.pageBytes at hspan
    split at hspan <;> omega
  have hpage : e.pageBytes = 4608 ∨ e.pageBytes = 4096 := by
    unfold FfsEntry.pageBytes
    split
    · exact .inl rfl
    · exact .inr rfl
  have hsafe : Safe cfg hdr id e c.skipHeader ↔
      c.skipHeader.flashAddr.toNat + c.skipHeader.flashBytes ≤ hdr.block_count.toNat * 4096 ∧
        (e.skips cfg id → c.skipHeader.size.toNat + 4096 = 4096 * e.pages) := by
    constructor
    · intro hs
      refine ⟨hs.in_flash, fun hskip => ?_⟩
      rw [hs.no_wrap (content_hasHeader.2 hskip), content_size h]
    · rintro ⟨hin, hwrap⟩
      refine ⟨hin, fun hflag => ?_⟩
      rw [hwrap (content_hasHeader.1 hflag), content_size h]
  rw [hsafe]
  unfold EntryFits
  rw [hA, hS]
  by_cases hskip : e.skips cfg id
  · obtain ⟨haddr', hsize', hinteg'⟩ := skipHeader_pos (hheader.mpr hskip) hinteg
    rw [haddr] at haddr'
    rw [hsize] at hsize'
    by_cases hzero : e.pages = 0
    · -- the page that is skipped is not there, and the size wraps around
      have hlarge : c.skipHeader.size.toNat + 4096 ≠ 4096 * e.pages := by omega
      exact ⟨fun hs => absurd (hs.2 hskip) hlarge, fun hs => absurd hzero (hs.1 hskip)⟩
    · have hpages : c.skipHeader.size.toNat = 4096 * (e.pages - 1) := by omega
      have hbytes := flashBytes_pages hinteg' hpages
      have hspan' : (e.pages - 1) * e.pageBytes + e.pageBytes = e.pages * e.pageBytes := by
        rw [← Nat.succ_mul]
        congr 1
        omega
      rw [haddr', hbytes, hpages]
      generalize (e.pages - 1) * e.pageBytes = rest at hspan' ⊢
      generalize e.pages * e.pageBytes = span at hspan hspan' ⊢
      have hcontent : 4096 * (e.pages - 1) + 4096 = 4096 * e.pages := by omega
      by_cases hlast : A = 2 ^ 20 - 1
      · have hin : (4096 * A + e.pageBytes) % 2 ^ 32 + rest ≤ hdr.block_count.toNat * 4096 := by
          omega
        exact ⟨fun _ => ⟨fun _ => hzero, .inr (.inl ⟨hskip, hlast⟩)⟩,
          fun _ => ⟨hin, fun _ => hcontent⟩⟩
      · have haddr'' : (4096 * A + e.pageBytes) % 2 ^ 32 + rest = 4096 * A + span := by omega
        rw [haddr'']
        constructor
        · rintro ⟨hin, -⟩
          exact ⟨fun _ => hzero, .inr (.inr hin)⟩
        · rintro ⟨-, hin⟩
          refine ⟨?_, fun _ => hcontent⟩
          rcases hin with hin | ⟨-, hin⟩ | hin
          · omega
          · exact absurd hin hlast
          · exact hin
  · have hflag : ¬ c.hasHeader = true := fun hflag => hskip (hheader.mp hflag)
    have hsame : c.skipHeader = c := if_neg hflag
    rw [hsame, haddr, flashBytes_pages hinteg hsize]
    generalize e.pages * e.pageBytes = span at hspan ⊢
    constructor
    · rintro ⟨hin, -⟩
      exact ⟨fun habs => absurd habs hskip, .inr (.inr hin)⟩
    · rintro ⟨-, hin⟩
      refine ⟨?_, fun habs => absurd habs hskip⟩
      rcases hin with hin | ⟨hin, -⟩ | hin
      · omega
      · exact absurd hin hskip
      · exact hin

end Section

/-! ## The table -/

/-- The entries of the table lie inside it, and each section recorded lies
inside the flash. -/
def TocSafe (cfg : Config) (hdr : FfsHdr) (toc : Toc) : Prop :=
  EntriesInTable hdr ∧
    ∀ id e, lastEntry cfg id hdr.table = some e → Safe cfg hdr id e (toc id)

/-- An accepted table is safe exactly when the size of the table is not wrapped
to zero and the last entry of each section fits. -/
theorem toc_safe_iff (cfg : Config) (hdr : FfsHdr) (toc : Toc)
    (hheader : checkHeader hdr NO_ERROR = NO_ERROR)
    (hentries : (parseEntries cfg hdr NO_ERROR toc).1 = NO_ERROR) :
    TocSafe cfg hdr (parseEntries cfg hdr NO_ERROR toc).2.1 ↔
      TableFits hdr ∧
        ∀ id e, lastEntry cfg id hdr.table = some e → EntryFits cfg hdr id e := by
  obtain ⟨_, hblock, _⟩ := checkHeader_ok hheader
  have hrecorded := parseLoop_recorded cfg hdr hdr.table NO_ERROR toc hentries
  have hsections : ∀ id e, lastEntry cfg id hdr.table = some e →
      (Safe cfg hdr id e ((parseEntries cfg hdr NO_ERROR toc).2.1 id)
        ↔ EntryFits cfg hdr id e) := by
    intro id e he
    obtain ⟨s, hfits, hsection⟩ := (hrecorded id).2 e he
    rw [parseEntries, hsection]
    exact safe_iff hblock hfits
  unfold TocSafe
  rw [entriesInTable_iff hheader]
  refine and_congr_right fun _ => ?_
  exact forall_congr' fun id => forall_congr' fun e => forall_congr' fun he => hsections id e he

/-! ## A table with one section -/

/-- An entry for the guard records, of `size` blocks behind the table, with
check bytes and a header page. -/
def guardEntry (size : UInt32) : FfsEntry where
  name := #v[71, 85, 65, 82, 68, 0, 0, 0, 0, 0, 0, 0, 0, 0, 0, 0]
  base := 1
  size := size
  pid := 0xFFFFFFFF
  id := 1
  type := 1
  flags := 0
  actual := size * 4096
  resvd := #v[0, 0, 0, 0]
  user := #v[0x8000, 0x80000000, 0, 0, 0, 0, 0, 0, 0, 0, 0, 0, 0, 0, 0, 0]
  checksum := pnor_ffs_checksum
    [word 71 85 65 82, word 68 0 0 0, 1, size, 0xFFFFFFFF, 1, 1, size * 4096, 0x8000, 0x80000000]

def guardHdr (size : UInt32) : FfsHdr :=
  ⟨FFS_MAGIC, 1, 1, 128, 1, 4096, 16, fun _ => guardEntry size⟩

def plain : Config := ⟨false, false, false, false⟩

/-- Two blocks are enough for the header page. -/
theorem toc_safe_guard : TocSafe plain (guardHdr 2)
    (parseEntries plain (guardHdr 2) NO_ERROR initializeSections).2.1 := by
  refine (toc_safe_iff plain (guardHdr 2) initializeSections (by decide) (by decide +kernel)).mpr
    ⟨.inl (by decide), fun id e he => ?_⟩
  have hmem := List.mem_of_find?_eq_some he
  have hentry : e = guardEntry 2 := List.mem_singleton.mp hmem
  rw [hentry]
  exact ⟨fun _ => by decide, .inl (by decide)⟩

/-- One block is not: its only page of content is gone without the check
bytes, and the size wraps around when the header page is skipped. -/
theorem toc_not_safe : ¬ ∀ (cfg : Config) (hdr : FfsHdr),
    checkHeader hdr NO_ERROR = NO_ERROR →
    (parseEntries cfg hdr NO_ERROR initializeSections).1 = NO_ERROR →
    TocSafe cfg hdr (parseEntries cfg hdr NO_ERROR initializeSections).2.1 := by
  intro h
  have hsafe := (h plain (guardHdr 1) (by decide) (by decide +kernel)).2 .GUARD_DATA (guardEntry 1)
    (by decide +kernel)
  exact absurd hsafe.in_flash (by decide +kernel)

end Hostboot.Pnor.Ffs
