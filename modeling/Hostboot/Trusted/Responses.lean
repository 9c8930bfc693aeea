import Mathlib.Algebra.Group.Nat.Defs
import Hostboot.Lib.Marshal
import Hostboot.Trusted.Events

/-!
# Responses of the TPM

A response is unmarshalled chunk by chunk.  Every chunk is a `memcpy` from the
response into a member of the destination structure, and a counter of the bytes
that remain goes down with it.  Once a chunk does not fit, the pointer into the
response is null, and every later chunk is a step that does nothing.  A count is
read back from the destination, where a null pointer has left what stood there
before.

The structures are packed, so the members stand at fixed offsets.  The processor
and the TPM both keep the high byte of a word first.
-/

namespace Hostboot.Trusted

open Lib

def MAX_TPML_HANDLES : Nat := 20
def MAX_TPM_PROPERTIES : Nat := 2
def TPM_CAP_HANDLES : Nat := 1
def TPM_CAP_TPM_PROPERTIES : Nat := 6
def FW_USED_PCR_COUNT : Nat := 8
def PCR_SELECT_MAX : Nat := (IMPLEMENTATION_PCR + 7) / 8

/-- `sizeof`. -/
def SIZEOF_TPMS_TAGGED_PROPERTY : Nat := 8
def SIZEOF_TPMU_HA : Nat := TPM_ALG_SHA256_SIZE
def SIZEOF_TPM2B_DIGEST : Nat := 2 + SIZEOF_TPMU_HA
def SIZEOF_TPMS_PCR_SELECTION : Nat := 3 + PCR_SELECT_MAX
def SIZEOF_TPML_HANDLE : Nat := 4 + 4 * MAX_TPML_HANDLES
def SIZEOF_TPM2_BASE_OUT : Nat := 10
def SIZEOF_TPM2_GET_CAPABILITY_OUT : Nat := SIZEOF_TPM2_BASE_OUT + 1 + (4 + SIZEOF_TPML_HANDLE)
def SIZEOF_TPML_PCR_SELECTION : Nat := 4 + HASH_COUNT * SIZEOF_TPMS_PCR_SELECTION
def SIZEOF_TPML_DIGEST : Nat := 4 + HASH_COUNT * SIZEOF_TPM2B_DIGEST
def SIZEOF_TPM2_PCR_READ_OUT : Nat :=
  SIZEOF_TPM2_BASE_OUT + 4 + SIZEOF_TPML_PCR_SELECTION + SIZEOF_TPML_DIGEST

/-! ## The functions of the source -/

/-- A `memcpy` into the destination. -/
structure Copy where
  dst : Nat
  src : Nat
  len : Nat

/-- `i_tpmBuf` and `*io_tpmBufSize`, the memory of the destination, and the
copies made so far. -/
structure Reader where
  tpmBuf : Option Nat
  tpmBufSize : Nat
  mem : Mem
  copies : List Copy

/-- A null pointer is returned. -/
def Reader.null (s : Reader) : Reader := { s with tpmBuf := none }

section Source

variable (src : Mem)

def unmarshalChunk (s : Reader) (chunkPtr chunkSize : Nat) : Reader :=
  match s.tpmBuf with
  | none => s
  | some p =>
    if chunkSize > s.tpmBufSize then s.null
    else
      { tpmBuf := some (p + chunkSize)
        tpmBufSize := s.tpmBufSize - chunkSize
        mem := s.mem.write chunkPtr (src.read p chunkSize)
        copies := s.copies ++ [⟨chunkPtr, p, chunkSize⟩] }

/-- `TPML_TAGGED_TPM_PROPERTY_unmarshal`. -/
def TpmlTaggedTpmProperty.unmarshal (val : Nat) (s : Reader) : Reader :=
  let s := unmarshalChunk src s val 4
  unmarshalChunk src s (val + 4) (SIZEOF_TPMS_TAGGED_PROPERTY * s.mem.get32 val)

/-- `TPML_HANDLE_unmarshal`. -/
def TpmlHandle.unmarshal (val : Nat) (s : Reader) : Reader :=
  let s := unmarshalChunk src s val 4
  if s.mem.get32 val ≤ MAX_TPML_HANDLES then
    unmarshalChunk src s (val + 4) (4 * s.mem.get32 val)
  else s.null

/-- `TPMS_CAPABILITY_DATA_unmarshal`. -/
def TpmsCapabilityData.unmarshal (val : Nat) (s : Reader) : Reader :=
  let s := unmarshalChunk src s val 4
  if s.mem.get32 val = TPM_CAP_HANDLES then TpmlHandle.unmarshal src (val + 4) s
  else if s.mem.get32 val = TPM_CAP_TPM_PROPERTIES then
    TpmlTaggedTpmProperty.unmarshal src (val + 4) s
  else s.null

/-- `TPM2_GetCapabilityOut_unmarshal`. -/
def Tpm2GetCapabilityOut.unmarshal (val outBufSize : Nat) (s : Reader) : Reader :=
  if SIZEOF_TPM2_GET_CAPABILITY_OUT > outBufSize then s.null
  else
    let s := unmarshalChunk src s (val + SIZEOF_TPM2_BASE_OUT) 1
    TpmsCapabilityData.unmarshal src (val + SIZEOF_TPM2_BASE_OUT + 1) s

/-- `TPMS_PCR_SELECTION_unmarshal`. -/
def TpmsPcrSelection.unmarshal (val : Nat) (s : Reader) : Reader :=
  let s := unmarshalChunk src s val 2
  let s := unmarshalChunk src s (val + 2) 1
  if s.tpmBuf ≠ none ∧ PCR_SELECT_MAX < (s.mem (val + 2)).toNat then s.null
  else unmarshalChunk src s (val + 3) (s.mem (val + 2)).toNat

/-- `TPM2B_DIGEST_unmarshal`. -/
def Tpm2bDigest.unmarshal (val : Nat) (s : Reader) : Reader :=
  let s := unmarshalChunk src s val 2
  if s.tpmBuf ≠ none ∧ SIZEOF_TPMU_HA < s.mem.get16 val then s.null
  else unmarshalChunk src s (val + 2) (s.mem.get16 val)

/-- The loop over the records of a list, for the number that remain. -/
def unmarshalEach (unmarshal : Nat → Reader → Reader) (sizeof : Nat) :
    Nat → Nat → Reader → Reader
  | 0, _, s => s
  | n + 1, val, s =>
    let s := unmarshal val s
    if s.tpmBuf = none then s else unmarshalEach unmarshal sizeof n (val + sizeof) s

/-- A count that may be `maxCount` at most, and the records behind it.  They do
not write over the count, so the loop is left when it reaches what was read. -/
def unmarshalList (maxCount : Nat) (unmarshal : Nat → Reader → Reader) (sizeof val : Nat)
    (s : Reader) : Reader :=
  let s := unmarshalChunk src s val 4
  if s.tpmBuf ≠ none ∧ maxCount < s.mem.get32 val then s.null
  else if s.tpmBuf ≠ none then unmarshalEach unmarshal sizeof (s.mem.get32 val) (val + 4) s
  else s

/-- `TPML_DIGEST_unmarshal`. -/
def TpmlDigest.unmarshal : Nat → Reader → Reader :=
  unmarshalList src FW_USED_PCR_COUNT (Tpm2bDigest.unmarshal src) SIZEOF_TPM2B_DIGEST

/-- `TPML_PCR_SELECTION_unmarshal`. -/
def TpmlPcrSelection.unmarshal : Nat → Reader → Reader :=
  unmarshalList src HASH_COUNT (TpmsPcrSelection.unmarshal src) SIZEOF_TPMS_PCR_SELECTION

/-- `TPM2_PcrReadOut_unmarshal`. -/
def Tpm2PcrReadOut.unmarshal (val outBufSize : Nat) (s : Reader) : Reader :=
  if SIZEOF_TPM2_PCR_READ_OUT > outBufSize then s.null
  else
    let s := unmarshalChunk src s (val + SIZEOF_TPM2_BASE_OUT) 4
    let s := TpmlPcrSelection.unmarshal src (val + SIZEOF_TPM2_BASE_OUT + 4) s
    TpmlDigest.unmarshal src (val + SIZEOF_TPM2_BASE_OUT + 4 + SIZEOF_TPML_PCR_SELECTION) s

end Source

/-! ## The format -/

/-- What is left of a response: the place of the next byte and the number of
bytes. -/
structure Rest where
  pos : Nat
  left : Nat

namespace Rest

def skip (k : Nat) (r : Rest) : Option Rest :=
  if k ≤ r.left then some ⟨r.pos + k, r.left - k⟩ else none

/-- A count of `width` bytes, at most `cap`, and as many units of `size` bytes. -/
def counted (count : Nat → Nat) (width cap size : Nat) (r : Rest) : Option Rest :=
  (r.skip width).bind fun r' =>
    if count r.pos ≤ cap then r'.skip (size * count r.pos) else none

/-- As many records as a number says. -/
def each (item : Rest → Option Rest) : Nat → Rest → Option Rest
  | 0, r => some r
  | n + 1, r => (item r).bind (each item n)

/-- A count of four bytes, at most `cap`, and as many records. -/
def listed (src : Mem) (cap : Nat) (item : Rest → Option Rest) (r : Rest) : Option Rest :=
  (r.skip 4).bind fun r' =>
    if src.get32 r.pos ≤ cap then each item (src.get32 r.pos) r' else none

end Rest

/-- The records of the responses. -/
inductive Record
  | tpmlTaggedTpmProperty | tpmlHandle | tpmsCapabilityData | tpm2GetCapabilityOut
  | tpmsPcrSelection | tpmlPcrSelection | tpm2bDigest | tpmlDigest | tpm2PcrReadOut

namespace Record

variable (src : Mem) (outBufSize : Nat)

def handles : Rest → Option Rest := Rest.counted src.get32 4 MAX_TPML_HANDLES 4

def properties : Rest → Option Rest :=
  Rest.counted src.get32 4 MAX_TPM_PROPERTIES SIZEOF_TPMS_TAGGED_PROPERTY

def capabilityData (r : Rest) : Option Rest :=
  (r.skip 4).bind fun r' =>
    if src.get32 r.pos = TPM_CAP_HANDLES then handles src r'
    else if src.get32 r.pos = TPM_CAP_TPM_PROPERTIES then properties src r'
    else none

def pcrSelection (r : Rest) : Option Rest :=
  (r.skip 2).bind (Rest.counted (fun p => (src p).toNat) 1 PCR_SELECT_MAX 1)

def digest : Rest → Option Rest := Rest.counted src.get16 2 SIZEOF_TPMU_HA 1

def pcrSelections : Rest → Option Rest := Rest.listed src HASH_COUNT (pcrSelection src)

def digests : Rest → Option Rest := Rest.listed src HASH_COUNT (digest src)

/-- What is left behind a record that the destination has room for. -/
def wire : Record → Rest → Option Rest
  | tpmlTaggedTpmProperty => properties src
  | tpmlHandle => handles src
  | tpmsCapabilityData => capabilityData src
  | tpm2GetCapabilityOut => fun r =>
    if SIZEOF_TPM2_GET_CAPABILITY_OUT > outBufSize then none
    else (r.skip 1).bind (capabilityData src)
  | tpmsPcrSelection => pcrSelection src
  | tpmlPcrSelection => pcrSelections src
  | tpm2bDigest => digest src
  | tpmlDigest => digests src
  | tpm2PcrReadOut => fun r =>
    if SIZEOF_TPM2_PCR_READ_OUT > outBufSize then none
    else ((r.skip 4).bind (pcrSelections src)).bind (digests src)

/-- The function of the source for a record. -/
def unmarshal (val : Nat) : Record → Reader → Reader
  | tpmlTaggedTpmProperty => TpmlTaggedTpmProperty.unmarshal src val
  | tpmlHandle => TpmlHandle.unmarshal src val
  | tpmsCapabilityData => TpmsCapabilityData.unmarshal src val
  | tpm2GetCapabilityOut => Tpm2GetCapabilityOut.unmarshal src val outBufSize
  | tpmsPcrSelection => TpmsPcrSelection.unmarshal src val
  | tpmlPcrSelection => TpmlPcrSelection.unmarshal src val
  | tpm2bDigest => Tpm2bDigest.unmarshal src val
  | tpmlDigest => TpmlDigest.unmarshal src val
  | tpm2PcrReadOut => Tpm2PcrReadOut.unmarshal src val outBufSize

/-! ## The members of the destination -/

/-- The place and the size of a member. -/
abbrev Member := Nat × Nat

def handleMembers (val : Nat) : List Member := [(val, 4), (val + 4, 4 * MAX_TPML_HANDLES)]

def propertyMembers (val : Nat) : List Member :=
  [(val, 4), (val + 4, SIZEOF_TPMS_TAGGED_PROPERTY * MAX_TPM_PROPERTIES)]

/-- The union has the member that the capability names. -/
def capabilityMembers (capability val : Nat) : List Member :=
  (val, 4) :: if capability = TPM_CAP_HANDLES then handleMembers (val + 4)
    else propertyMembers (val + 4)

def pcrSelectionMembers (val : Nat) : List Member :=
  [(val, 2), (val + 2, 1), (val + 3, PCR_SELECT_MAX)]

def digestMembers (val : Nat) : List Member := [(val, 2), (val + 2, SIZEOF_TPMU_HA)]

/-- The members of the first `n` structures of an array. -/
def arrayMembers (item : Nat → List Member) (sizeof : Nat) : Nat → Nat → List Member
  | 0, _ => []
  | n + 1, val => item val ++ arrayMembers item sizeof n (val + sizeof)

def pcrSelectionsMembers (val : Nat) : List Member :=
  (val, 4) :: arrayMembers pcrSelectionMembers SIZEOF_TPMS_PCR_SELECTION HASH_COUNT (val + 4)

def digestsMembers (val : Nat) : List Member :=
  (val, 4) :: arrayMembers digestMembers SIZEOF_TPM2B_DIGEST HASH_COUNT (val + 4)

/-- The members of a record at `val`, for the response at `pos`. -/
def members (val pos : Nat) : Record → List Member
  | tpmlTaggedTpmProperty => propertyMembers val
  | tpmlHandle => handleMembers val
  | tpmsCapabilityData => capabilityMembers (src.get32 pos) val
  | tpm2GetCapabilityOut =>
    (val + SIZEOF_TPM2_BASE_OUT, 1) ::
      capabilityMembers (src.get32 (pos + 1)) (val + SIZEOF_TPM2_BASE_OUT + 1)
  | tpmsPcrSelection => pcrSelectionMembers val
  | tpmlPcrSelection => pcrSelectionsMembers val
  | tpm2bDigest => digestMembers val
  | tpmlDigest => digestsMembers val
  | tpm2PcrReadOut =>
    (val + SIZEOF_TPM2_BASE_OUT, 4) :: (pcrSelectionsMembers (val + SIZEOF_TPM2_BASE_OUT + 4) ++
      digestsMembers (val + SIZEOF_TPM2_BASE_OUT + 4 + SIZEOF_TPML_PCR_SELECTION))

end Record

/-! ## Chunks -/

section Chunks

variable {src : Mem} {s : Reader} {p k : Nat}

theorem unmarshalChunk_null (src : Mem) (h : s.tpmBuf = none) (addr k : Nat) :
    unmarshalChunk src s addr k = s := by
  rw [unmarshalChunk, h]

theorem unmarshalChunk_short (h : s.tpmBuf = some p) (hk : s.tpmBufSize < k) (addr : Nat) :
    unmarshalChunk src s addr k = s.null := by
  rw [unmarshalChunk, h]
  exact if_pos hk

theorem unmarshalChunk_fits (h : s.tpmBuf = some p) (hk : k ≤ s.tpmBufSize) (addr : Nat) :
    unmarshalChunk src s addr k =
      { tpmBuf := some (p + k)
        tpmBufSize := s.tpmBufSize - k
        mem := s.mem.write addr (src.read p k)
        copies := s.copies ++ [⟨addr, p, k⟩] } := by
  rw [unmarshalChunk, h]
  exact if_neg (Nat.not_lt.mpr hk)

end Chunks

/-- A run of chunks, and of null pointers returned. -/
inductive Steps (src : Mem) : Reader → Reader → Prop
  | refl (s : Reader) : Steps src s s
  | chunk {s s' : Reader} (addr k : Nat) : Steps src s s' →
      Steps src s (unmarshalChunk src s' addr k)
  | null {s s' : Reader} : Steps src s s' → Steps src s s'.null

/-- The copies read from the `n` bytes at `p`, and the pointer and the size say
what remains of them. -/
structure Within (p n : Nat) (s : Reader) : Prop where
  copies : ∀ c ∈ s.copies, p ≤ c.src ∧ c.src + c.len ≤ p + n
  size_le : s.tpmBufSize ≤ n
  next : ∀ q, s.tpmBuf = some q → q + s.tpmBufSize = p + n

namespace Steps

variable {src : Mem} {s s' s'' : Reader}

theorem trans (h : Steps src s s') (h' : Steps src s' s'') : Steps src s s'' := by
  induction h' with
  | refl => exact h
  | chunk addr k _ ih => exact .chunk addr k ih
  | null _ ih => exact .null ih

theorem copies_grow (h : Steps src s s') : s.copies <+: s'.copies := by
  induction h with
  | refl => exact List.prefix_refl _
  | @chunk s' addr k _ ih =>
    cases hp : s'.tpmBuf with
    | none => rwa [unmarshalChunk_null src hp]
    | some p =>
      rcases Nat.lt_or_ge s'.tpmBufSize k with hk | hk
      · rwa [unmarshalChunk_short hp hk]
      · rw [unmarshalChunk_fits hp hk]
        exact ih.trans (List.prefix_append _ _)
  | null _ ih => exact ih

theorem of_null (h : Steps src s s') (hnull : s.tpmBuf = none) :
    s'.tpmBuf = none ∧ s'.copies = s.copies := by
  induction h with
  | refl => exact ⟨hnull, rfl⟩
  | chunk addr k _ ih => rwa [unmarshalChunk_null src ih.1]
  | null _ ih => exact ⟨rfl, ih.2⟩

theorem within {p n : Nat} (h : Steps src s s') (hs : Within p n s) : Within p n s' := by
  induction h with
  | refl => exact hs
  | @chunk s' addr k _ ih =>
    cases hp : s'.tpmBuf with
    | none => rwa [unmarshalChunk_null src hp]
    | some q =>
      have hnext := ih.next q hp
      have hsize := ih.size_le
      rcases Nat.lt_or_ge s'.tpmBufSize k with hk | hk
      · rw [unmarshalChunk_short hp hk]
        exact ⟨ih.copies, hsize, fun _ hq => nomatch hq⟩
      · rw [unmarshalChunk_fits hp hk]
        refine ⟨fun c hc => ?_, ?_, fun q' hq => ?_⟩
        · rcases List.mem_append.mp hc with hc | hc
          · exact ih.copies c hc
          · rw [List.mem_singleton.mp hc]
            dsimp only
            omega
        · show s'.tpmBufSize - k ≤ n
          omega
        · cases hq
          show q + k + (s'.tpmBufSize - k) = p + n
          omega
  | null _ ih => exact ⟨ih.copies, ih.size_le, fun _ hq => nomatch hq⟩

end Steps

/-! ## Every function is a run of chunks -/

section Runs

variable (src : Mem) (val : Nat) (s : Reader)

theorem TpmlTaggedTpmProperty.steps : Steps src s (TpmlTaggedTpmProperty.unmarshal src val s) :=
  .chunk _ _ (.chunk _ _ (.refl s))

theorem TpmlHandle.steps : Steps src s (TpmlHandle.unmarshal src val s) := by
  have hcount : Steps src s (unmarshalChunk src s val 4) := .chunk _ _ (.refl s)
  unfold TpmlHandle.unmarshal
  dsimp only
  split
  · exact .chunk _ _ hcount
  · exact .null hcount

theorem TpmsCapabilityData.steps : Steps src s (TpmsCapabilityData.unmarshal src val s) := by
  have hcapability : Steps src s (unmarshalChunk src s val 4) := .chunk _ _ (.refl s)
  unfold TpmsCapabilityData.unmarshal
  dsimp only
  split
  · exact hcapability.trans (TpmlHandle.steps src _ _)
  split
  · exact hcapability.trans (TpmlTaggedTpmProperty.steps src _ _)
  · exact .null hcapability

theorem TpmsPcrSelection.steps : Steps src s (TpmsPcrSelection.unmarshal src val s) := by
  have hsize : Steps src s (unmarshalChunk src (unmarshalChunk src s val 2) (val + 2) 1) :=
    .chunk _ _ (.chunk _ _ (.refl s))
  unfold TpmsPcrSelection.unmarshal
  dsimp only
  split
  · exact .null hsize
  · exact .chunk _ _ hsize

theorem Tpm2bDigest.steps : Steps src s (Tpm2bDigest.unmarshal src val s) := by
  have hsize : Steps src s (unmarshalChunk src s val 2) := .chunk _ _ (.refl s)
  unfold Tpm2bDigest.unmarshal
  dsimp only
  split
  · exact .null hsize
  · exact .chunk _ _ hsize

variable {unmarshal : Nat → Reader → Reader}

theorem unmarshalEach_steps (hitem : ∀ val s, Steps src s (unmarshal val s)) (sizeof : Nat) :
    ∀ n val s, Steps src s (unmarshalEach unmarshal sizeof n val s) := by
  intro n
  induction n with
  | zero => exact fun _ s => .refl s
  | succ n ih =>
    intro val s
    rw [unmarshalEach]
    split
    · exact hitem val s
    · exact (hitem val s).trans (ih _ _)

theorem unmarshalList_steps (hitem : ∀ val s, Steps src s (unmarshal val s))
    (maxCount sizeof : Nat) : Steps src s (unmarshalList src maxCount unmarshal sizeof val s) := by
  have hcount : Steps src s (unmarshalChunk src s val 4) := .chunk _ _ (.refl s)
  unfold unmarshalList
  dsimp only
  split
  · exact .null hcount
  split
  · exact hcount.trans (unmarshalEach_steps src hitem sizeof _ _ _)
  · exact hcount

theorem TpmlPcrSelection.steps : Steps src s (TpmlPcrSelection.unmarshal src val s) :=
  unmarshalList_steps src val s (TpmsPcrSelection.steps src) _ _

theorem TpmlDigest.steps : Steps src s (TpmlDigest.unmarshal src val s) :=
  unmarshalList_steps src val s (Tpm2bDigest.steps src) _ _

theorem Record.steps (outBufSize : Nat) (record : Record) :
    Steps src s (record.unmarshal src outBufSize val s) := by
  cases record with
  | tpmlTaggedTpmProperty => exact TpmlTaggedTpmProperty.steps src val s
  | tpmlHandle => exact TpmlHandle.steps src val s
  | tpmsCapabilityData => exact TpmsCapabilityData.steps src val s
  | tpm2GetCapabilityOut =>
    show Steps src s (Tpm2GetCapabilityOut.unmarshal src val outBufSize s)
    unfold Tpm2GetCapabilityOut.unmarshal
    split
    · exact .null (.refl s)
    · exact (Steps.chunk _ _ (.refl s)).trans (TpmsCapabilityData.steps src _ _)
  | tpmsPcrSelection => exact TpmsPcrSelection.steps src val s
  | tpmlPcrSelection => exact TpmlPcrSelection.steps src val s
  | tpm2bDigest => exact Tpm2bDigest.steps src val s
  | tpmlDigest => exact TpmlDigest.steps src val s
  | tpm2PcrReadOut =>
    show Steps src s (Tpm2PcrReadOut.unmarshal src val outBufSize s)
    unfold Tpm2PcrReadOut.unmarshal
    split
    · exact .null (.refl s)
    · exact ((Steps.chunk _ _ (.refl s)).trans (TpmlPcrSelection.steps src _ _)).trans
        (TpmlDigest.steps src _ _)

end Runs

end Hostboot.Trusted
