import Hostboot.Lib.Fields
import Hostboot.Lib.Loop
import Hostboot.Lib.Packed

/-!
# The VPD of a target

`IpVpdFacade` of `src/usr/vpd/ipvpd.C` looks for records and keywords in the
VPD of a target.  The VPD is a memory of bytes with its own answer to which
reads succeed, as `deviceOp` gives it: the sources that `input_args_t` chooses
from hold the same bytes.  Offsets in it have 16 bits, and sums of them are
taken as the code takes them, to 16 bits where they are kept in a `uint16_t`
and as they are where they are an `int`.

A loop of the code that need not end is a loop with a number of rounds.  Of an
error log there is the reason code with the user data that is not about the
target.

The module holds the functions of the source, from `fetchData` to
`findRecordMetaDataSeeprom`.
-/

namespace Hostboot.Vpd

open Hostboot.Lib

def RECORD_BYTE_SIZE : Nat := 4

def RECORD_ADDR_BYTE_SIZE : Nat := 2

def KEYWORD_BYTE_SIZE : Nat := 2

def KEYWORD_SIZE_BYTE_SIZE : Nat := 1

def RT_SKIP_BYTES : Nat := 3

def VHDR_ECC_DATA_SIZE : Nat := 11

def RESOURCE_ID_SIZE : Nat := 1

/-- `"RT"`. -/
def KEYWORD_RECORD_TYPE : Bytes := [0x52, 0x54]

/-- `"PT"`. -/
def VPD_KEYWORD_POINTER_TO_RECORD : Bytes := [0x50, 0x54]

/-- `"VHDR"`. -/
def VPD_HEADER_RECORD_NAME : Bytes := [0x56, 0x48, 0x44, 0x52]

/-- `"VTOC"`. -/
def VPD_TABLE_OF_CONTENTS_RECORD_NAME : Bytes := [0x56, 0x54, 0x4F, 0x43]

/-- The character `'#'`. -/
def POUND : UInt8 := 0x23

/-- The VPD of a target: its bytes, and whether `deviceOp` reads so many bytes at an
address. -/
structure Eeprom where
  image : Mem
  readable : Nat → Nat → Bool

inductive Errl where
  /-- From `deviceOp`. -/
  | eeprom (byteAddr numBytes : Nat)
  | VPD_RECORD_MISMATCH (offset recordOffset : UInt16) (expected found : Bytes)
  | VPD_KEYWORD_NOT_FOUND (recordOffset index : UInt16)
  | VPD_INSUFFICIENT_BUFFER_SIZE (bufferSize expectedSize : Nat)
  | VPD_SIZE_MISMATCH (bufferSize expectedSize : Nat)
  | VPD_INCORRECT_RECORD_RETURNED (found expected : Bytes)
  | VPD_RECORD_NOT_FOUND
  deriving DecidableEq, Repr

def fetchData (vpd : Eeprom) (byteAddr numBytes : Nat) : Except Errl Bytes :=
  if vpd.readable byteAddr numBytes then .ok (vpd.image.read byteAddr numBytes)
  else .error (.eeprom byteAddr numBytes)

/-- `le16toh` of two bytes as they stand, or of the one byte of a size. -/
def leToNat (bs : Bytes) : Nat := Wire.decode bs.reverse

/-! ## Keywords -/

/-- A keyword as `findKeywordAddr` reads it: its name, its size, and the offset of its
data. -/
structure KeywordHeader where
  keyword : Bytes
  keywordSize : UInt16
  offset : UInt16
  deriving DecidableEq, Repr

/-- The name and the size of the keyword at an offset.  Only `#` keywords have a size of two
bytes. -/
def readKeyword (vpd : Eeprom) (offset : UInt16) : Except Errl KeywordHeader := do
  let keyword ← fetchData vpd offset.toNat KEYWORD_BYTE_SIZE
  let offset := offset + UInt16.ofNat KEYWORD_BYTE_SIZE
  let keywordLength :=
    if keyword.head? = some POUND then KEYWORD_SIZE_BYTE_SIZE + 1 else KEYWORD_SIZE_BYTE_SIZE
  let keywordSize ← fetchData vpd offset.toNat keywordLength
  return ⟨keyword, UInt16.ofNat (leToNat keywordSize), offset + UInt16.ofNat keywordLength⟩

/-- A keyword that was found: its size, and its offset in the record. -/
structure Found where
  keywordSize : UInt16
  keywordOffset : UInt16
  deriving DecidableEq, Repr

/-- One round of the loop of `findKeywordAddr`, at an offset and after so many matches.  It
ends with the keyword, without it, or with an error. -/
def keywordLoop (vpd : Eeprom) (keywordName : Bytes) (recordOffset index : UInt16)
    (recordEnd : Nat) : UInt16 × Nat → Except Errl (Option Found) ⊕ UInt16 × Nat
  | (offset, matchesFound) =>
    if offset.toNat < recordEnd then
      match readKeyword vpd offset with
      | .error err => .inl (.error err)
      | .ok header =>
        if header.keyword = keywordName.take KEYWORD_BYTE_SIZE then
          if matchesFound + 1 = index.toNat + 1 then
            .inl (.ok (some ⟨header.keywordSize, header.offset - recordOffset⟩))
          else .inr (header.offset + header.keywordSize, matchesFound + 1)
        else .inr (header.offset + header.keywordSize, matchesFound)
    else .inl (.ok none)

def findKeywordAddr (rounds : Nat) (vpd : Eeprom) (keywordName recordName : Bytes)
    (recordOffset index : UInt16) : Option (Except Errl Found) :=
  match fetchData vpd recordOffset.toNat RECORD_ADDR_BYTE_SIZE with
  | .error err => some (.error err)
  | .ok size =>
    let recordSize := leToNat size
    let offset :=
      recordOffset + UInt16.ofNat RECORD_ADDR_BYTE_SIZE + UInt16.ofNat RT_SKIP_BYTES
    let record := fetchData vpd offset.toNat RECORD_BYTE_SIZE
    let isRT := keywordName.take KEYWORD_BYTE_SIZE = KEYWORD_RECORD_TYPE
    if isRT ∧ index = 0 then
      some (record.map fun _ => ⟨UInt16.ofNat RECORD_BYTE_SIZE, offset - recordOffset⟩)
    else
      let offset := offset + UInt16.ofNat RECORD_BYTE_SIZE
      match record with
      | .error err => some (.error err)
      | .ok record =>
        if record ≠ recordName.take RECORD_BYTE_SIZE then
          some (.error
            (.VPD_RECORD_MISMATCH offset recordOffset (recordName.take RECORD_BYTE_SIZE) record))
        else
          let recordEnd := recordSize + recordOffset.toNat + RECORD_ADDR_BYTE_SIZE
          (Loop.run (keywordLoop vpd keywordName recordOffset index recordEnd) rounds
            (offset, if isRT then 1 else 0)).map fun result => do
              match ← result with
              | some found => .ok found
              | none => .error (.VPD_KEYWORD_NOT_FOUND recordOffset index)

def checkBufferSize (bufferSize expectedSize : Nat) : Except Errl Unit :=
  if bufferSize ≥ expectedSize then .ok ()
  else .error (.VPD_INSUFFICIENT_BUFFER_SIZE bufferSize expectedSize)

/-- `retrieveKeyword`, with the buffer if there is one and its size. -/
def retrieveKeyword (rounds : Nat) (vpd : Eeprom) (keywordName recordName : Bytes)
    (offset index : UInt16) (buffer : Option Mem) (buflen : Nat) :
    Option (Except Errl (Option Mem × Nat)) :=
  (findKeywordAddr rounds vpd keywordName recordName offset index).map fun result => do
    let found ← result
    match buffer with
    | none => return (none, found.keywordSize.toNat)
    | some buffer =>
      checkBufferSize buflen found.keywordSize.toNat
      let data ← fetchData vpd (offset.toNat + found.keywordOffset.toNat) found.keywordSize.toNat
      return (some (buffer.write 0 data), found.keywordSize.toNat)

/-! ## Records -/

/-- `pt_entry`. -/
inductive PtEntry where
  | recordName
  | recordType
  | recordOffset
  | recordLength
  | eccOffset
  | eccLength
  deriving DecidableEq, Repr

/-- The fields, with their offsets. -/
def PtEntry.field : PtEntry → Field
  | recordName => ⟨0, RECORD_BYTE_SIZE⟩
  | recordType => ⟨4, 2⟩
  | recordOffset => ⟨6, 2⟩
  | recordLength => ⟨8, 2⟩
  | eccOffset => ⟨10, 2⟩
  | eccLength => ⟨12, 2⟩

/-- `sizeof(pt_entry)`. -/
def PT_ENTRY_SIZE : Nat := PtEntry.eccLength.field.offset + PtEntry.eccLength.field.size

/-- `sizeof(vhdr_record)`. -/
def VHDR_RECORD_SIZE : Nat := 55

/-- `le16toh` of a field of the entry at a place. -/
def ptField (m : Mem) (base : Nat) (f : PtEntry) : UInt16 :=
  UInt16.ofNat (leToNat (m.bytesOf base f.field))

/-- `getVtocRecordMetaData` without a full VHDR record: the offset of the VTOC record, which
is all that is used of its meta data.  `stack` is what is behind the buffer. -/
def getVtocRecordMetaData (rounds : Nat) (vpd : Eeprom) (stack : Mem) :
    Option (Except Errl UInt16) :=
  let buffer := stack.write 0 (Packed.zeros VHDR_RECORD_SIZE)
  let offset := UInt16.ofNat (VHDR_ECC_DATA_SIZE + RESOURCE_ID_SIZE)
  (retrieveKeyword rounds vpd VPD_KEYWORD_POINTER_TO_RECORD VPD_HEADER_RECORD_NAME offset 0
    (some buffer) VHDR_RECORD_SIZE).map fun result => do
      let (filled, bufferSize) ← result
      let buffer := filled.getD buffer
      let recordName := buffer.bytesOf 0 PtEntry.recordName.field
      if bufferSize < PT_ENTRY_SIZE then
        .error (.VPD_SIZE_MISMATCH bufferSize PT_ENTRY_SIZE)
      else if recordName ≠ VPD_TABLE_OF_CONTENTS_RECORD_NAME then
        .error (.VPD_INCORRECT_RECORD_RETURNED recordName VPD_TABLE_OF_CONTENTS_RECORD_NAME)
      else return ptField buffer 0 .recordOffset

/-- What `findRecordMetaDataSeeprom` returns of a record. -/
structure RecordMetaData where
  recordOffset : UInt16
  recordLength : UInt16
  eccOffset : UInt16
  eccLength : UInt16
  deriving DecidableEq, Repr

/-- The meta data in the entry at a place. -/
def metaDataAt (m : Mem) (base : Nat) : RecordMetaData :=
  ⟨ptField m base .recordOffset, ptField m base .recordLength, ptField m base .eccOffset,
    ptField m base .eccLength⟩

/-- `sizeof(l_buffer)` of `findRecordMetaDataSeeprom`. -/
def PT_BUFFER_SIZE : Nat := 256

/-- The values of `vtoc_pt_offset` for a keyword of a size. -/
def vtocPtOffsets (ptLen : Nat) : List Nat :=
  (List.range ((ptLen + PT_ENTRY_SIZE - 1) / PT_ENTRY_SIZE)).map (PT_ENTRY_SIZE * ·)

/-- An entry that names the record: the buffer, the size of the keyword in it, and the place
of the entry. -/
structure PtMatch where
  buffer : Mem
  ptLen : Nat
  vtocPtOffset : Nat

/-- The scan of the buffer. -/
def scanBuffer (record : Bytes) (buffer : Mem) (ptLen : Nat) : Option PtMatch :=
  ((vtocPtOffsets ptLen).find? fun o =>
    buffer.bytesOf o PtEntry.recordName.field = record.take RECORD_BYTE_SIZE).map
      (⟨buffer, ptLen, ·⟩)

/-- The loop of `findRecordMetaDataSeeprom` from an index on.  It ends with a match, without
one, or with the error about the first keyword. -/
def scanKeywords (rounds : Nat) (vpd : Eeprom) (record : Bytes) (offset : UInt16) :
    Nat → UInt16 → Mem → Option (Except Errl (Option PtMatch))
  | 0, _, _ => none
  | more + 1, index, buffer =>
    match retrieveKeyword rounds vpd VPD_KEYWORD_POINTER_TO_RECORD
      VPD_TABLE_OF_CONTENTS_RECORD_NAME offset index (some buffer) PT_BUFFER_SIZE with
    | none => none
    | some (.error err) => if index ≠ 0 then some (.ok none) else some (.error err)
    | some (.ok (filled, ptLen)) =>
      let buffer := filled.getD buffer
      match scanBuffer record buffer ptLen with
      | some found => some (.ok (some found))
      | none => scanKeywords rounds vpd record offset more (index + 1) buffer

/-- The loop of `findRecordMetaDataSeeprom`, with what is behind its buffer. -/
def scanVtoc (rounds : Nat) (vpd : Eeprom) (stack : Mem) (record : Bytes) (vtoc : UInt16) :
    Option (Except Errl (Option PtMatch)) :=
  scanKeywords rounds vpd record (vtoc + 1) rounds 0
    (stack.write 0 (Packed.zeros PT_BUFFER_SIZE))

def findRecordMetaDataSeeprom (rounds : Nat) (vpd : Eeprom) (stack : Mem) (record : Bytes) :
    Option (Except Errl RecordMetaData) :=
  match getVtocRecordMetaData rounds vpd stack with
  | none => none
  | some (.error err) => some (.error err)
  | some (.ok vtoc) =>
    (scanVtoc rounds vpd stack record vtoc).map fun result => do
      match ← result with
      | some found => return metaDataAt found.buffer found.vtocPtOffset
      | none => .error .VPD_RECORD_NOT_FOUND

end Hostboot.Vpd
