import Hostboot.Lib.Marshal
import Hostboot.Lib.Packed
import Mathlib.Algebra.GroupWithZero.Nat

/-!
# The sections of an error log

An error log is flattened into the format of the platform event log, section
behind section.  Every section starts with `pelSectionHeader_t`.  This module has
the sections other than the SRC: the private header (PH), the user header (UH),
the extended header (EH), the two sections for the BMC (ED, MT), and a
user-defined section (UD).

A section is flattened at an address of a memory, given the number of bytes left
there, and the result is the number of bytes it took, zero when it does not fit.
It is read back from the bytes from its start on; a read behind their end has no
result, and the number that comes back is the number of bytes it used.

The fields of a record are assigned after it was cleared, which is written here
as one write of the whole record.  The time base of the two time stamps does not
go into the log and is left out.
-/

namespace Hostboot.Errl.Pel

open Hostboot.Lib List

def ERRL_SID_USER_DEFINED : UInt16 := 0x5544

/-! ## The section header -/

/-- `ErrlSctnHdr`, and the fields of `pelSectionHeader_t`. -/
structure ErrlSctnHdr where
  sid : UInt16
  slen : UInt16
  ver : UInt8
  sst : UInt8
  compId : UInt16
deriving DecidableEq

namespace ErrlSctnHdr

def flatSize : Nat := 8

/-- The constructor, whose length does not count the header. -/
def new (sid slen : UInt16) (ver sst : UInt8) (compId : UInt16) : ErrlSctnHdr :=
  ⟨sid, slen + 8, ver, sst, compId⟩

/-- The header as `pelSectionHeader_t`. -/
def bytes (h : ErrlSctnHdr) : Bytes :=
  Packed.u16 h.sid ++ (Packed.u16 h.slen ++ ([h.ver] ++ ([h.sst] ++ Packed.u16 h.compId)))

/-- `pelSectionHeader_t`, read field by field. -/
def read : Reader ErrlSctnHdr := do
  let sid ← Reader.u16
  let slen ← Reader.u16
  let ver ← Reader.byte
  let sst ← Reader.byte
  let compId ← Reader.u16
  pure ⟨sid, slen, ver, sst, compId⟩

def flatten (h : ErrlSctnHdr) (m : Mem) (p cb : Nat) : Nat × Mem :=
  if flatSize ≤ cb then (flatSize, m.write p h.bytes) else (0, m)

@[simp] theorem length_bytes (h : ErrlSctnHdr) : h.bytes.length = 8 := by
  simp [bytes]

theorem reads (h : ErrlSctnHdr) : Reads read h.bytes h :=
  (Reads.u16 h.sid).bind <| (Reads.u16 h.slen).bind <| (Reads.byte h.ver).bind <|
    (Reads.byte h.sst).bind <| (Reads.u16 h.compId).bind_nil <| Reads.pure _

end ErrlSctnHdr

/-! ## The private header -/

/-- The fields of `date_time_t`. -/
structure DateTime where
  year : UInt16
  month : UInt8
  day : UInt8
  hour : UInt8
  minute : UInt8
  second : UInt8
deriving DecidableEq

namespace DateTime

def dec2bcd8 (dec : UInt8) : UInt8 := (dec % 10) ||| ((dec / 10) <<< 4)

def dec2bcd16 (dec : UInt16) : UInt16 :=
  (dec2bcd8 (dec % 100).toUInt8).toUInt16 ||| ((dec2bcd8 (dec / 100).toUInt8).toUInt16 <<< 8)

def bcd2dec8 (bcd : UInt8) : UInt8 := (bcd >>> 4) * 10 + (bcd &&& 0x0f)

def bcd2dec16 (bcd : UInt16) : UInt16 :=
  (bcd2dec8 (bcd >>> 8).toUInt8).toUInt16 * 100 + (bcd2dec8 (bcd &&& 0xff).toUInt8).toUInt16

/-- `dateTimeToRawBCD`, from the highest byte on. -/
def toRawBCD (d : DateTime) : Bytes :=
  Packed.u16 (dec2bcd16 d.year) ++ ([dec2bcd8 d.month] ++ ([dec2bcd8 d.day] ++
    ([dec2bcd8 d.hour] ++ ([dec2bcd8 d.minute] ++ ([dec2bcd8 d.second] ++ [0])))))

/-- `rawBCDToDateTime`, of the eight bytes from the front on. -/
def readRawBCD : Reader DateTime := do
  let year ← Reader.u16
  let month ← Reader.byte
  let day ← Reader.byte
  let hour ← Reader.byte
  let minute ← Reader.byte
  let second ← Reader.byte
  let _ ← Reader.byte
  pure ⟨bcd2dec16 year, bcd2dec8 month, bcd2dec8 day, bcd2dec8 hour, bcd2dec8 minute,
    bcd2dec8 second⟩

/-- A time after the way through the log. -/
def recoded (d : DateTime) : DateTime :=
  ⟨bcd2dec16 (dec2bcd16 d.year), bcd2dec8 (dec2bcd8 d.month), bcd2dec8 (dec2bcd8 d.day),
    bcd2dec8 (dec2bcd8 d.hour), bcd2dec8 (dec2bcd8 d.minute), bcd2dec8 (dec2bcd8 d.second)⟩

@[simp] theorem length_toRawBCD (d : DateTime) : d.toRawBCD.length = 8 := by
  simp [toRawBCD]

theorem reads (d : DateTime) : Reads readRawBCD d.toRawBCD d.recoded :=
  (Reads.u16 _).bind <| (Reads.byte _).bind <| (Reads.byte _).bind <| (Reads.byte _).bind <|
    (Reads.byte _).bind <| (Reads.byte _).bind <| (Reads.byte 0).bind_nil <| Reads.pure _

end DateTime

structure ErrlPrvt where
  header : ErrlSctnHdr
  created : DateTime
  committed : DateTime
  cid : UInt8
  sctns : UInt8
  plid : UInt32
  eid : UInt32
deriving DecidableEq

namespace ErrlPrvt

def flatSize : Nat := ErrlSctnHdr.flatSize + 40

/-- The section as `pelPrivateHeaderSection_t`. -/
def bytes (s : ErrlPrvt) : Bytes :=
  s.header.bytes ++ (s.created.toRawBCD ++ (s.committed.toRawBCD ++ ([s.cid] ++
    (Packed.zeros 2 ++ ([s.sctns] ++ (Packed.zeros 12 ++
      (Packed.u32 s.plid ++ Packed.u32 s.eid)))))))

def flatten (s : ErrlPrvt) (m : Mem) (p cb : Nat) : Nat × Mem :=
  if cb < s.header.slen.toNat then (0, m)
  else if cb < ErrlSctnHdr.flatSize then (0, m.write p (Packed.zeros 48))
  else (s.header.slen.toNat, m.write p s.bytes)

/-- `pelPrivateHeaderSection_t`, as far as it is read. -/
def read : Reader ErrlPrvt := do
  let header ← ErrlSctnHdr.read
  let created ← DateTime.readRawBCD
  let committed ← DateTime.readRawBCD
  let cid ← Reader.byte
  let _ ← Reader.array 2
  let sctns ← Reader.byte
  let _ ← Reader.array 12
  let plid ← Reader.u32
  let eid ← Reader.u32
  pure ⟨header, created, committed, cid, sctns, plid, eid⟩

def unflatten (bs : Bytes) : Option (ErrlPrvt × Nat) := do
  let (s, _) ← read bs
  pure (s, flatSize)

/-- The section after the way through the log. -/
def recoded (s : ErrlPrvt) : ErrlPrvt :=
  { s with created := s.created.recoded, committed := s.committed.recoded }

@[simp] theorem length_bytes (s : ErrlPrvt) : s.bytes.length = flatSize := by
  simp [bytes, flatSize, ErrlSctnHdr.flatSize]

theorem reads (s : ErrlPrvt) : Reads read s.bytes s.recoded :=
  s.header.reads.bind <| s.created.reads.bind <| s.committed.reads.bind <|
    (Reads.byte s.cid).bind <| (Reads.array (Packed.length_zeros 2)).bind <|
    (Reads.byte s.sctns).bind <| (Reads.array (Packed.length_zeros 12)).bind <|
    (Reads.u32 s.plid).bind <| (Reads.u32 s.eid).bind_nil <| Reads.pure _

theorem unflatten_bytes (s : ErrlPrvt) (rest : Bytes) :
    unflatten (s.bytes ++ rest) = some (s.recoded, flatSize) := by
  rw [unflatten, s.reads rest]
  rfl

end ErrlPrvt

/-! ## The user header -/

structure ErrlUH where
  header : ErrlSctnHdr
  ssid : UInt8
  scope : UInt8
  severity : UInt8
  etype : UInt8
  domain : UInt8
  vector : UInt8
  actions : UInt16
deriving DecidableEq

namespace ErrlUH

def flatSize : Nat := ErrlSctnHdr.flatSize + 16

/-- The section as `pelUserHeaderSection_t`. -/
def bytes (s : ErrlUH) : Bytes :=
  s.header.bytes ++ ([s.ssid] ++ ([s.scope] ++ ([s.severity] ++ ([s.etype] ++
    (Packed.zeros 4 ++ ([s.domain] ++ ([s.vector] ++ (Packed.u16 s.actions ++
      Packed.zeros 4))))))))

def flatten (s : ErrlUH) (m : Mem) (p cb : Nat) : Nat × Mem :=
  if s.header.slen.toNat ≤ cb then (s.header.slen.toNat, m.write p s.bytes) else (0, m)

/-- `pelUserHeaderSection_t`, as far as it is read. -/
def read : Reader ErrlUH := do
  let header ← ErrlSctnHdr.read
  let ssid ← Reader.byte
  let scope ← Reader.byte
  let severity ← Reader.byte
  let etype ← Reader.byte
  let _ ← Reader.array 4
  let domain ← Reader.byte
  let vector ← Reader.byte
  let actions ← Reader.u16
  let _ ← Reader.array 4
  pure ⟨header, ssid, scope, severity, etype, domain, vector, actions⟩

def unflatten (bs : Bytes) : Option (ErrlUH × Nat) := do
  let (s, _) ← read bs
  pure (s, flatSize)

@[simp] theorem length_bytes (s : ErrlUH) : s.bytes.length = flatSize := by
  simp [bytes, flatSize, ErrlSctnHdr.flatSize]

theorem reads (s : ErrlUH) : Reads read s.bytes s :=
  s.header.reads.bind <| (Reads.byte s.ssid).bind <| (Reads.byte s.scope).bind <|
    (Reads.byte s.severity).bind <| (Reads.byte s.etype).bind <|
    (Reads.array (Packed.length_zeros 4)).bind <| (Reads.byte s.domain).bind <|
    (Reads.byte s.vector).bind <| (Reads.u16 s.actions).bind <|
    (Reads.array (Packed.length_zeros 4)).bind_nil <| Reads.pure _

theorem unflatten_bytes (s : ErrlUH) (rest : Bytes) :
    unflatten (s.bytes ++ rest) = some (s, flatSize) := by
  rw [unflatten, s.reads rest]
  rfl

end ErrlUH

/-! ## The sections for the BMC

These three are copied into the log as they are. -/

/-- A section that is a record of `n` bytes. -/
structure Raw (n : Nat) where
  iv : Bytes
  size : iv.length = n
deriving DecidableEq

namespace Raw

variable {n : Nat}

/-- Copy the record into the log when it fits. -/
def flatten (s : Raw n) (m : Mem) (p cb : Nat) : Nat × Mem :=
  if n ≤ cb then (n, m.write p s.iv) else (0, m)

/-- Copy the record from the log. -/
def unflatten (n : Nat) (bs : Bytes) : Option (Raw n × Nat) :=
  if h : n ≤ bs.length then some (⟨bs.take n, length_take_of_le h⟩, n) else none

theorem unflatten_append (s : Raw n) (rest : Bytes) :
    unflatten n (s.iv ++ rest) = some (s, n) := by
  have hle : n ≤ (s.iv ++ rest).length := by
    rw [length_append, s.size]
    exact Nat.le_add_right _ _
  rw [unflatten, dif_pos hle]
  congr
  exact take_left' s.size

end Raw

abbrev ErrlED : Type := Raw 0xD4

abbrev ErrlMT : Type := Raw 0x1C

/-- The place of `symptom_id_length` in `pelExtendedUserHeaderSection_t`. -/
def symptomIdLengthOffset : Nat := 75

/-- `ErrlEH`: a record whose last field, the symptom id of at most 80 characters,
goes into the log only as far as it is used. -/
structure ErrlEH where
  iv : Bytes
  size : iv.length = 0x4C + 80
  fits : (iv.getD symptomIdLengthOffset 0).toNat ≤ 80
deriving DecidableEq

namespace ErrlEH

/-- `SLEN`, the size of the section without a symptom id. -/
def SLEN : Nat := 0x4C

/-- `symptom_id_length`. -/
def symptomIdLength (s : ErrlEH) : Nat := (s.iv.getD symptomIdLengthOffset 0).toNat

def flatSize (s : ErrlEH) : Nat := SLEN + s.symptomIdLength

/-- What goes into the log. -/
def bytes (s : ErrlEH) : Bytes := s.iv.take s.flatSize

def flatten (s : ErrlEH) (m : Mem) (p cb : Nat) : Nat × Mem :=
  if s.flatSize ≤ cb then (s.flatSize, m.write p s.bytes) else (0, m)

/-- `unflatten`, over the record that was there before.  A length that reaches
behind the symptom id would write behind the record, and has no result. -/
def unflatten (s : ErrlEH) (bs : Bytes) : Option (ErrlEH × Nat) :=
  let n := SLEN + (bs.getD symptomIdLengthOffset 0).toNat
  let iv := bs.take n ++ s.iv.drop n
  if h : n ≤ bs.length ∧ iv.length = 0x4C + 80 ∧
      (iv.getD symptomIdLengthOffset 0).toNat ≤ 80 then
    some (⟨iv, h.2.1, h.2.2⟩, n)
  else none

theorem flatSize_le (s : ErrlEH) : s.flatSize ≤ s.iv.length := by
  have hfits := s.fits
  rw [s.size, flatSize, symptomIdLength, SLEN]
  omega

@[simp] theorem length_bytes (s : ErrlEH) : s.bytes.length = s.flatSize :=
  length_take_of_le s.flatSize_le

/-- The length of the symptom id is in the part that goes into the log. -/
theorem getD_bytes (s : ErrlEH) (rest : Bytes) :
    (s.bytes ++ rest).getD symptomIdLengthOffset 0 = s.iv.getD symptomIdLengthOffset 0 := by
  have hin : symptomIdLengthOffset < s.flatSize := by
    rw [flatSize, symptomIdLengthOffset, SLEN]
    omega
  have hlen : symptomIdLengthOffset < s.bytes.length := by
    rw [length_bytes]
    exact hin
  rw [getD_append _ _ _ _ hlen, getD_eq_getElem?_getD, getD_eq_getElem?_getD,
    bytes, getElem?_take_of_lt hin]

theorem unflatten_bytes (s s' : ErrlEH) (rest : Bytes) :
    ∃ s'', s'.unflatten (s.bytes ++ rest) = some (s'', s.flatSize) ∧ s''.bytes = s.bytes := by
  have hn : SLEN + ((s.bytes ++ rest).getD symptomIdLengthOffset 0).toNat = s.flatSize := by
    rw [getD_bytes]
    rfl
  have htake : (s.bytes ++ rest).take s.flatSize = s.bytes := take_left' s.length_bytes
  have hle : s.flatSize ≤ (s.bytes ++ rest).length := by
    rw [length_append, length_bytes]
    exact Nat.le_add_right _ _
  have hsize : (s.bytes ++ s'.iv.drop s.flatSize).length = 0x4C + 80 := by
    have h := s.flatSize_le
    rw [s.size] at h
    rw [length_append, length_bytes, length_drop, s'.size]
    omega
  have hfits : ((s.bytes ++ s'.iv.drop s.flatSize).getD symptomIdLengthOffset 0).toNat ≤ 80 := by
    rw [getD_bytes]
    exact s.fits
  refine ⟨⟨s.bytes ++ s'.iv.drop s.flatSize, hsize, hfits⟩, ?_, ?_⟩
  · unfold unflatten
    simp only [hn, htake]
    rw [dif_pos ⟨hle, hsize, hfits⟩]
  · have hflat : flatSize ⟨s.bytes ++ s'.iv.drop s.flatSize, hsize, hfits⟩ = s.flatSize := by
      rw [flatSize, symptomIdLength, getD_bytes]
      rfl
    rw [bytes, hflat]
    exact take_left' s.length_bytes

end ErrlEH

/-! ## User-defined sections -/

structure ErrlUD where
  header : ErrlSctnHdr
  data : Bytes
deriving DecidableEq

namespace ErrlUD

/-- The constructor. -/
def new (data : Bytes) (compId : UInt16) (ver sst : UInt8) : ErrlUD :=
  ⟨.new ERRL_SID_USER_DEFINED 0 ver sst compId, data⟩

/-- `flatSize`: the header and the data, up to the next multiple of four. -/
def flatSize (u : ErrlUD) : Nat := (ErrlSctnHdr.flatSize + u.data.length + 3) / 4 * 4

/-- The section with the length of what it is flattened to in its header. -/
def sized (u : ErrlUD) : ErrlUD :=
  { u with header := { u.header with slen := UInt16.ofNat u.flatSize } }

/-- The zeros behind the data. -/
def pad (u : ErrlUD) : Bytes :=
  Packed.zeros (u.flatSize - (ErrlSctnHdr.flatSize + u.data.length))

/-- The section in the log. -/
def bytes (u : ErrlUD) : Bytes := u.sized.header.bytes ++ (u.data ++ u.pad)

/-- `flatten`, which notes the length in the header. -/
def flatten (u : ErrlUD) (m : Mem) (p cb : Nat) : Nat × Mem × ErrlUD :=
  if u.flatSize ≤ cb then (u.flatSize, m.write p u.bytes, u.sized) else (0, m, u)

/-- The section that the reader makes of one in the log: its data reach to the
end of the section. -/
def padded (u : ErrlUD) : ErrlUD :=
  .new (u.data ++ u.pad) u.header.compId u.header.ver u.header.sst

theorem le_flatSize (u : ErrlUD) : ErrlSctnHdr.flatSize + u.data.length ≤ u.flatSize := by
  rw [flatSize]
  omega

theorem flatSize_pos (u : ErrlUD) : 0 < u.flatSize := by
  have h := u.le_flatSize
  rw [ErrlSctnHdr.flatSize] at h
  omega

@[simp] theorem length_bytes (u : ErrlUD) : u.bytes.length = u.flatSize := by
  have h := u.le_flatSize
  rw [ErrlSctnHdr.flatSize] at h
  rw [bytes, length_append, length_append, ErrlSctnHdr.length_bytes, pad,
    Packed.length_zeros, ErrlSctnHdr.flatSize]
  omega

end ErrlUD

end Hostboot.Errl.Pel
