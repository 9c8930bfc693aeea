import Hostboot.Lib.Marshal

/-!
# Events of the trusted boot log

An event is marshalled into the log field by field, little-endian, and read
back by a separate function that checks each field as it goes.  An array of the
source is a function of its index here, and a pointer is an address.  `none`
stands for the null pointer that a failed `logUnmarshal` returns together with
its error flag.
-/

namespace Hostboot.Trusted

open Lib List

def TPM_ALG_SHA256 : UInt16 := 0x000B
def TPM_ALG_INVALID_ID : UInt16 := 0x000C
def TPM_ALG_SHA256_SIZE : Nat := 32
def TPM_ALG_INVALID_SIZE : Nat := 33
def MAX_TPM_LOG_MSG : Nat := 8192
def HASH_COUNT : Nat := 1
def IMPLEMENTATION_PCR : Nat := 24
def EV_NO_ACTION : Nat := 3
def EV_INVALID : Nat := 0x13

/-! ## Records -/

/-- `TPMT_HA`. -/
structure TpmtHa where
  algorithmId : UInt16
  digest : Nat → UInt8

/-- `TPML_DIGEST_VALUES`. -/
structure TpmlDigestValues where
  count : UInt32
  digests : Nat → TpmtHa

/-- `TPM_EVENT_FIELD`. -/
structure TpmEventField where
  eventSize : UInt32
  event : Nat → UInt8

/-- `TCG_PCR_EVENT2`. -/
structure TcgPcrEvent2 where
  pcrIndex : UInt32
  eventType : UInt32
  digests : TpmlDigestValues
  event : TpmEventField

/-- `TCG_PCR_EVENT`, the event of the header. -/
structure TcgPcrEvent where
  pcrIndex : UInt32
  eventType : UInt32
  digest : Nat → UInt8
  eventSize : UInt32
  event : Nat → UInt8

/-- The event after `memset`. -/
def TcgPcrEvent2.zero : TcgPcrEvent2 := ⟨0, 0, ⟨0, fun _ => ⟨0, fun _ => 0⟩⟩, ⟨0, fun _ => 0⟩⟩

def TcgPcrEvent.zero : TcgPcrEvent := ⟨0, 0, fun _ => 0, 0, fun _ => 0⟩

/-- `sizeof`. -/
def SIZEOF_TCG_PCR_EVENT : Nat := 32 + MAX_TPM_LOG_MSG
def SIZEOF_TCG_PCR_EVENT2 : Nat :=
  8 + (4 + HASH_COUNT * (2 + TPM_ALG_SHA256_SIZE)) + (4 + MAX_TPM_LOG_MSG)

def getDigestSize (algId : UInt16) : Nat := if algId = TPM_ALG_SHA256 then TPM_ALG_SHA256_SIZE else 0

/-- `memcpy` of an array into the log. -/
def copyIn (m : Mem) (p : Nat) (f : Nat → UInt8) (n : Nat) : Mem :=
  m.write p ((List.range n).map f)

/-- `memcpy` from the log into an array. -/
def copyOut (f : Nat → UInt8) (m : Mem) (p n : Nat) : Nat → UInt8 :=
  fun i => if i < n then m (p + i) else f i

/-- A little-endian field of `k` bytes. -/
def putField (m : Mem) (p k n : Nat) : Mem := m.write p (Mem.bytesLE k n)

/-! ## The functions of the source -/

namespace TpmtHa

/-- `TPMT_HA_marshalSize`. -/
def marshalSize (val : TpmtHa) : Nat := 2 + getDigestSize val.algorithmId

/-- `TPMT_HA_logMarshal`. -/
def logMarshal (val : TpmtHa) (m : Mem) (p : Nat) : Mem × Nat :=
  let m := putField m p 2 val.algorithmId.toNat
  let m := copyIn m (p + 2) val.digest (getDigestSize val.algorithmId)
  (m, p + 2 + getDigestSize val.algorithmId)

/-- `TPMT_HA_logUnmarshal`. -/
def logUnmarshal (val : TpmtHa) (m : Mem) (p : Nat) : Option (TpmtHa × Nat) :=
  let algorithmId := UInt16.ofNat (m.getLE p 2)
  if algorithmId ≥ TPM_ALG_INVALID_ID then none
  else if getDigestSize algorithmId ≥ TPM_ALG_INVALID_SIZE then none
  else some (⟨algorithmId, copyOut val.digest m (p + 2) (getDigestSize algorithmId)⟩,
    p + 2 + getDigestSize algorithmId)

attribute [grind =] marshalSize logMarshal logUnmarshal

/-- `TPMT_HA::operator==`. -/
def Same (a b : TpmtHa) : Prop :=
  a.algorithmId = b.algorithmId ∧ ∀ i < getDigestSize a.algorithmId, a.digest i = b.digest i

instance (a b : TpmtHa) : Decidable (a.Same b) := inferInstanceAs (Decidable (_ ∧ _))

end TpmtHa

namespace TpmlDigestValues

/-- `TPML_DIGEST_VALUES_marshalSize`. -/
def marshalSize (val : TpmlDigestValues) : Nat :=
  (List.range (min val.count.toNat HASH_COUNT)).foldl
    (fun ret idx => ret + (val.digests idx).marshalSize) 4

/-- `TPML_DIGEST_VALUES_logMarshal`. -/
def logMarshal (val : TpmlDigestValues) (m : Mem) (p : Nat) : Mem × Option Nat :=
  if HASH_COUNT < val.count.toNat then (m, none)
  else
    let m := putField m p 4 val.count.toNat
    let (m, p) := (List.range' 0 val.count.toNat).foldl
      (fun (m, p) idx => (val.digests idx).logMarshal m p) (m, p + 4)
    (m, some p)

/-- The loop of `TPML_DIGEST_VALUES_logUnmarshal` over the digests that remain. -/
def unmarshalDigests (m : Mem) :
    Nat → Nat → (Nat → TpmtHa) → Nat → Option ((Nat → TpmtHa) × Nat)
  | 0, _, digests, p => some (digests, p)
  | n + 1, idx, digests, p =>
    match (digests idx).logUnmarshal m p with
    | none => none
    | some (digest, p) => unmarshalDigests m n (idx + 1) (Function.update digests idx digest) p

/-- `TPML_DIGEST_VALUES_logUnmarshal`. -/
def logUnmarshal (val : TpmlDigestValues) (m : Mem) (p : Nat) : Option (TpmlDigestValues × Nat) :=
  let count := UInt32.ofNat (m.getLE p 4)
  if count.toNat > HASH_COUNT then none
  else
    match unmarshalDigests m count.toNat 0 val.digests (p + 4) with
    | none => none
    | some (digests, p) => some (⟨count, digests⟩, p)

attribute [grind =] marshalSize logMarshal logUnmarshal

/-- `TPML_DIGEST_VALUES::operator==`. -/
def Same (a b : TpmlDigestValues) : Prop :=
  a.count = b.count ∧ ∀ idx < a.count.toNat, (a.digests idx).Same (b.digests idx)

instance (a b : TpmlDigestValues) : Decidable (a.Same b) := inferInstanceAs (Decidable (_ ∧ _))

end TpmlDigestValues

namespace TpmEventField

/-- `TPM_EVENT_FIELD_marshalSize`. -/
def marshalSize (val : TpmEventField) : Nat := 4 + val.eventSize.toNat

/-- `TPM_EVENT_FIELD_logMarshal`. -/
def logMarshal (val : TpmEventField) (m : Mem) (p : Nat) : Mem × Option Nat :=
  if MAX_TPM_LOG_MSG < val.eventSize.toNat then (m, none)
  else
    let m := putField m p 4 val.eventSize.toNat
    let m := copyIn m (p + 4) val.event val.eventSize.toNat
    (m, some (p + 4 + val.eventSize.toNat))

/-- `TPM_EVENT_FIELD_logUnmarshal`. -/
def logUnmarshal (val : TpmEventField) (m : Mem) (p : Nat) : Option (TpmEventField × Nat) :=
  let eventSize := UInt32.ofNat (m.getLE p 4)
  if eventSize.toNat > MAX_TPM_LOG_MSG then none
  else some (⟨eventSize, copyOut val.event m (p + 4) eventSize.toNat⟩, p + 4 + eventSize.toNat)

attribute [grind =] marshalSize logMarshal logUnmarshal

/-- `TPM_EVENT_FIELD::operator==`. -/
def Same (a b : TpmEventField) : Prop :=
  a.eventSize = b.eventSize ∧ ∀ i < a.eventSize.toNat, a.event i = b.event i

instance (a b : TpmEventField) : Decidable (a.Same b) := inferInstanceAs (Decidable (_ ∧ _))

end TpmEventField

namespace TcgPcrEvent2

/-- `TCG_PCR_EVENT2_marshalSize`. -/
def marshalSize (val : TcgPcrEvent2) : Nat :=
  4 + 4 + val.digests.marshalSize + val.event.marshalSize

/-- `TCG_PCR_EVENT2_logMarshal`. -/
def logMarshal (val : TcgPcrEvent2) (m : Mem) (p : Nat) : Mem × Option Nat :=
  let m := putField m p 4 val.pcrIndex.toNat
  let m := putField m (p + 4) 4 val.eventType.toNat
  match val.digests.logMarshal m (p + 4 + 4) with
  | (m, none) => (m, none)
  | (m, some p) => val.event.logMarshal m p

/-- `TCG_PCR_EVENT2_logUnmarshal`. -/
def logUnmarshal (val : TcgPcrEvent2) (m : Mem) (p bufSize : Nat) : Option (TcgPcrEvent2 × Nat) :=
  if SIZEOF_TCG_PCR_EVENT2 > bufSize then none
  else
    let pcrIndex := UInt32.ofNat (m.getLE p 4)
    if pcrIndex.toNat > IMPLEMENTATION_PCR then none
    else
      let eventType := UInt32.ofNat (m.getLE (p + 4) 4)
      if eventType.toNat = 0 ∨ eventType.toNat ≥ EV_INVALID then none
      else
        match val.digests.logUnmarshal m (p + 4 + 4) with
        | none => none
        | some (digests, p) =>
          match val.event.logUnmarshal m p with
          | none => none
          | some (event, p) => some (⟨pcrIndex, eventType, digests, event⟩, p)

attribute [grind =] marshalSize logMarshal logUnmarshal

/-- `TCG_PCR_EVENT2::operator==`. -/
def Same (a b : TcgPcrEvent2) : Prop :=
  a.pcrIndex = b.pcrIndex ∧ a.eventType = b.eventType ∧ a.digests.Same b.digests ∧
    a.event.Same b.event

instance (a b : TcgPcrEvent2) : Decidable (a.Same b) := inferInstanceAs (Decidable (_ ∧ _))

end TcgPcrEvent2

namespace TcgPcrEvent

/-- `TCG_PCR_EVENT_marshalSize`. -/
def marshalSize (val : TcgPcrEvent) : Nat :=
  SIZEOF_TCG_PCR_EVENT + val.eventSize.toNat - MAX_TPM_LOG_MSG

/-- `TCG_PCR_EVENT_logMarshal`. -/
def logMarshal (val : TcgPcrEvent) (m : Mem) (p : Nat) : Mem × Nat :=
  let m := putField m p 4 val.pcrIndex.toNat
  let m := putField m (p + 4) 4 val.eventType.toNat
  let m := copyIn m (p + 4 + 4) val.digest 20
  let m := putField m (p + 4 + 4 + 20) 4 val.eventSize.toNat
  if val.eventSize > 0 then
    (copyIn m (p + 4 + 4 + 20 + 4) val.event val.eventSize.toNat,
      p + 4 + 4 + 20 + 4 + val.eventSize.toNat)
  else (m, p + 4 + 4 + 20 + 4)

/-- `TCG_PCR_EVENT_logUnmarshal`. -/
def logUnmarshal (val : TcgPcrEvent) (m : Mem) (p bufSize : Nat) : Option (TcgPcrEvent × Nat) :=
  if SIZEOF_TCG_PCR_EVENT > bufSize then none
  else
    let pcrIndex := UInt32.ofNat (m.getLE p 4)
    if pcrIndex.toNat ≥ IMPLEMENTATION_PCR then none
    else
      let eventType := UInt32.ofNat (m.getLE (p + 4) 4)
      if eventType.toNat = 0 ∨ eventType.toNat ≥ EV_INVALID then none
      else
        let digest := copyOut val.digest m (p + 4 + 4) 20
        let eventSize := UInt32.ofNat (m.getLE (p + 4 + 4 + 20) 4)
        if eventSize.toNat ≥ MAX_TPM_LOG_MSG then none
        else
          some (⟨pcrIndex, eventType, digest, eventSize,
              copyOut val.event m (p + 4 + 4 + 20 + 4) eventSize.toNat⟩,
            p + 4 + 4 + 20 + 4 + eventSize.toNat)

attribute [grind =] marshalSize logMarshal logUnmarshal

end TcgPcrEvent

/-! ## Fields -/

/-- The bytes of an array. -/
def arrayBytes (f : Nat → UInt8) (n : Nat) : List UInt8 := (List.range n).map f

@[simp] theorem length_arrayBytes (f : Nat → UInt8) (n : Nat) : (arrayBytes f n).length = n := by
  rw [arrayBytes, length_map, length_range]

theorem copyOut_of_holds {m : Mem} {p n : Nat} {f : Nat → UInt8} (g : Nat → UInt8)
    (h : m.Holds p (arrayBytes f n)) {i : Nat} (hi : i < n) : copyOut g m p n i = f i := by
  have hlt : i < (arrayBytes f n).length := by rw [length_arrayBytes]; exact hi
  rw [copyOut, if_pos hi, h.byte hlt]
  simp [arrayBytes]

theorem holds_copyOut (g : Nat → UInt8) (m : Mem) (p n : Nat) :
    m.Holds p (arrayBytes (copyOut g m p n) n) := by
  have hbytes : arrayBytes (copyOut g m p n) n = m.read p n :=
    map_congr_left fun i hi => if_pos (mem_range.mp hi)
  rw [hbytes]
  exact Mem.holds_read m p n

theorem field32_of_holds {m : Mem} {p : Nat} {n : UInt32} (h : m.Holds p (Mem.bytesLE 4 n.toNat)) :
    UInt32.ofNat (m.getLE p 4) = n := by
  rw [Mem.getLE_of_holds h n.toNat_lt, UInt32.ofNat_toNat]

theorem holds_field32 (m : Mem) (p : Nat) :
    m.Holds p (Mem.bytesLE 4 (UInt32.ofNat (m.getLE p 4)).toNat) := by
  have hlt : m.getLE p 4 < 2 ^ 32 := Mem.getLE_lt m p 4
  rw [UInt32.toNat_ofNat', Nat.mod_eq_of_lt hlt]
  exact Mem.holds_getLE m p 4

/-! ## Digests -/

namespace TpmtHa

variable {m : Mem} {p p' : Nat} {val val' : TpmtHa}

/-- The marshalled form. -/
def bytes (val : TpmtHa) : List UInt8 :=
  Mem.bytesLE 2 val.algorithmId.toNat ++ arrayBytes val.digest (getDigestSize val.algorithmId)

attribute [grind =] bytes

/-- The limits that `logUnmarshal` enforces. -/
def Valid (val : TpmtHa) : Prop := val.algorithmId < TPM_ALG_INVALID_ID

theorem length_bytes (val : TpmtHa) : val.bytes.length = val.marshalSize := by
  rw [bytes, length_append, Mem.length_bytesLE, length_arrayBytes, marshalSize]

theorem logMarshal_eq (val : TpmtHa) (m : Mem) (p : Nat) :
    val.logMarshal m p = (m.write p val.bytes, p + val.bytes.length) := by
  have hwrite := Mem.write_append m p (Mem.bytesLE 2 val.algorithmId.toNat)
    (arrayBytes val.digest (getDigestSize val.algorithmId))
  rw [Mem.length_bytesLE] at hwrite
  rw [length_bytes, marshalSize, ← Nat.add_assoc]
  exact congrArg (·, p + 2 + getDigestSize val.algorithmId) hwrite

theorem digestSize_lt (algId : UInt16) : ¬ getDigestSize algId ≥ TPM_ALG_INVALID_SIZE := by
  unfold getDigestSize
  split <;> decide

theorem unmarshal_of_holds (val' : TpmtHa) (hvalid : val.Valid) (h : m.Holds p val.bytes) :
    ∃ r, val'.logUnmarshal m p = some (r, p + val.bytes.length) ∧ r.Same val := by
  obtain ⟨halg, hdigest⟩ := Mem.holds_append.mp h
  rw [Mem.length_bytesLE] at hdigest
  have hread : UInt16.ofNat (m.getLE p 2) = val.algorithmId := by
    rw [Mem.getLE_of_holds halg val.algorithmId.toNat_lt, UInt16.ofNat_toNat]
  rw [length_bytes, marshalSize, ← Nat.add_assoc, logUnmarshal, hread,
    if_neg (UInt16.not_le.mpr hvalid), if_neg (digestSize_lt _)]
  exact ⟨_, rfl, rfl, fun i hi => copyOut_of_holds _ hdigest hi⟩

theorem holds_of_unmarshal (h : val'.logUnmarshal m p = some (val, p')) :
    val.Valid ∧ m.Holds p val.bytes ∧ p' = p + val.bytes.length := by
  unfold logUnmarshal at h
  by_cases halg : UInt16.ofNat (m.getLE p 2) ≥ TPM_ALG_INVALID_ID
  · rw [if_pos halg] at h
    cases h
  rw [if_neg halg, if_neg (digestSize_lt _)] at h
  cases h
  rw [length_bytes, marshalSize, ← Nat.add_assoc]
  refine ⟨UInt16.not_le.mp halg, Mem.holds_append.mpr ⟨?_, ?_⟩, rfl⟩
  · have hlt : m.getLE p 2 < 2 ^ 16 := Mem.getLE_lt m p 2
    rw [UInt16.toNat_ofNat', Nat.mod_eq_of_lt hlt]
    exact Mem.holds_getLE m p 2
  · rw [Mem.length_bytesLE]
    exact holds_copyOut _ m _ _

end TpmtHa

/-! ## Lists of digests -/

namespace TpmlDigestValues

variable {m : Mem} {p p' : Nat} {val val' : TpmlDigestValues}

/-- The marshalled digests from `idx` on. -/
def digestBytes (digests : Nat → TpmtHa) (idx n : Nat) : List UInt8 :=
  (List.range' idx n).flatMap fun i => (digests i).bytes

/-- The marshalled form. -/
def bytes (val : TpmlDigestValues) : List UInt8 :=
  Mem.bytesLE 4 val.count.toNat ++ digestBytes val.digests 0 val.count.toNat

attribute [grind =] bytes

/-- The limits that `logUnmarshal` enforces. -/
def Valid (val : TpmlDigestValues) : Prop :=
  val.count.toNat ≤ HASH_COUNT ∧ ∀ idx < val.count.toNat, (val.digests idx).Valid

theorem digestBytes_succ (digests : Nat → TpmtHa) (idx n : Nat) :
    digestBytes digests idx (n + 1)
      = (digests idx).bytes ++ digestBytes digests (idx + 1) n := by
  rw [digestBytes, range'_succ, flatMap_cons]
  rfl

theorem marshalDigests_eq (digests : Nat → TpmtHa) (n : Nat) : ∀ (idx : Nat) (m : Mem) (p : Nat),
    (List.range' idx n).foldl (fun (m, p) idx => (digests idx).logMarshal m p) (m, p)
      = (m.write p (digestBytes digests idx n), p + (digestBytes digests idx n).length) := by
  induction n with
  | zero =>
    intro idx m p
    have hnone : m.write p [] = m := by
      funext x
      exact if_neg (by simp)
    rw [digestBytes, range'_zero, foldl_nil, flatMap_nil, hnone]
    rfl
  | succ n ih =>
    intro idx m p
    rw [range'_succ, foldl_cons]
    dsimp only
    rw [TpmtHa.logMarshal_eq, ih, Mem.write_append,
      digestBytes_succ, length_append, Nat.add_assoc]

theorem marshalSize_eq (hcount : val.count.toNat ≤ HASH_COUNT) :
    val.marshalSize = val.bytes.length := by
  have hfold : ∀ (n idx a : Nat),
      (List.range' idx n).foldl (fun ret i => ret + (val.digests i).marshalSize) a
        = a + (digestBytes val.digests idx n).length := by
    intro n
    induction n with
    | zero =>
      intro idx a
      rfl
    | succ n ih =>
      intro idx a
      rw [range'_succ, foldl_cons, ih, digestBytes_succ, length_append,
        TpmtHa.length_bytes, Nat.add_assoc]
  rw [marshalSize, Nat.min_eq_left hcount, range_eq_range', hfold, bytes, length_append,
    Mem.length_bytesLE]

theorem logMarshal_eq (m : Mem) (p : Nat) (hcount : val.count.toNat ≤ HASH_COUNT) :
    val.logMarshal m p = (m.write p val.bytes, some (p + val.bytes.length)) := by
  have hwrite := Mem.write_append m p (Mem.bytesLE 4 val.count.toNat)
    (digestBytes val.digests 0 val.count.toNat)
  rw [Mem.length_bytesLE] at hwrite
  rw [logMarshal, if_neg (by omega)]
  dsimp only
  rw [marshalDigests_eq, putField, hwrite, bytes, length_append, Mem.length_bytesLE,
    Nat.add_assoc]

/-- The loop reads the digests whose bytes stand in the log, and leaves those
before it alone. -/
theorem unmarshalDigests_of_holds (digests : Nat → TpmtHa) (n : Nat) :
    ∀ (idx : Nat) (digests' : Nat → TpmtHa) (p : Nat),
      (∀ i, idx ≤ i → i < idx + n → (digests i).Valid) →
      m.Holds p (digestBytes digests idx n) →
      ∃ r, unmarshalDigests m n idx digests' p
          = some (r, p + (digestBytes digests idx n).length) ∧
        (∀ i, idx ≤ i → i < idx + n → (r i).Same (digests i)) ∧ ∀ i < idx, r i = digests' i := by
  induction n with
  | zero =>
    intro idx digests' p _ _
    exact ⟨digests', rfl, fun i hlo hhi => absurd hhi (by omega), fun _ _ => rfl⟩
  | succ n ih =>
    intro idx digests' p hvalid h
    rw [digestBytes_succ] at h ⊢
    obtain ⟨hfirst, hrest⟩ := Mem.holds_append.mp h
    obtain ⟨d, hd, hsame⟩ := TpmtHa.unmarshal_of_holds (digests' idx)
      (hvalid idx (Nat.le_refl _) (by omega)) hfirst
    obtain ⟨r, hr, hsames, hkept⟩ := ih (idx + 1) (Function.update digests' idx d)
      (p + (digests idx).bytes.length)
      (fun i hlo hhi => hvalid i (by omega) (by omega)) hrest
    rw [unmarshalDigests, hd]
    dsimp only
    rw [hr, length_append, Nat.add_assoc]
    refine ⟨r, rfl, fun i hlo hhi => ?_, fun i hi => ?_⟩
    · by_cases hi : i = idx
      · subst hi
        rw [hkept i (by omega), Function.update_self]
        exact hsame
      · exact hsames i (by omega) (by omega)
    · rw [hkept i (by omega), Function.update_of_ne (by omega)]

theorem holds_of_unmarshalDigests (n : Nat) :
    ∀ (idx : Nat) (digests r : Nat → TpmtHa) (p p' : Nat),
      unmarshalDigests m n idx digests p = some (r, p') →
      (∀ i, idx ≤ i → i < idx + n → (r i).Valid) ∧ m.Holds p (digestBytes r idx n) ∧
        p' = p + (digestBytes r idx n).length ∧ ∀ i < idx, r i = digests i := by
  induction n with
  | zero =>
    intro idx digests r p p' h
    cases h
    exact ⟨fun i hlo hhi => absurd hhi (by omega), rfl, rfl, fun _ _ => rfl⟩
  | succ n ih =>
    intro idx digests r p p' h
    rw [unmarshalDigests] at h
    cases hd : (digests idx).logUnmarshal m p with
    | none =>
      rw [hd] at h
      cases h
    | some res =>
      obtain ⟨d, p1⟩ := res
      rw [hd] at h
      obtain ⟨hvalid, hholds, hp', hkept⟩ := ih _ _ _ _ _ h
      obtain ⟨hvalid1, hholds1, hp1⟩ := TpmtHa.holds_of_unmarshal hd
      have hidx : r idx = d := by
        rw [hkept idx (by omega), Function.update_self]
      rw [hp1] at hholds hp'
      rw [digestBytes_succ, hidx, length_append]
      refine ⟨fun i hlo hhi => ?_, Mem.holds_append.mpr ⟨hholds1, hholds⟩, by omega,
        fun i hi => ?_⟩
      · by_cases hi : i = idx
        · rw [hi, hidx]
          exact hvalid1
        · exact hvalid i (by omega) (by omega)
      · rw [hkept i (by omega), Function.update_of_ne (by omega)]

theorem unmarshal_of_holds (val' : TpmlDigestValues) (hvalid : val.Valid)
    (h : m.Holds p val.bytes) :
    ∃ r, val'.logUnmarshal m p = some (r, p + val.bytes.length) ∧ r.Same val := by
  obtain ⟨hcount, hdigests⟩ := Mem.holds_append.mp h
  rw [Mem.length_bytesLE] at hdigests
  obtain ⟨r, hr, hsame, _⟩ := unmarshalDigests_of_holds val.digests val.count.toNat 0 val'.digests
    (p + 4) (fun i _ hi => hvalid.2 i (by omega)) hdigests
  have hle := hvalid.1
  rw [logUnmarshal, field32_of_holds hcount, if_neg (by omega), hr, bytes, length_append,
    Mem.length_bytesLE, ← Nat.add_assoc]
  exact ⟨_, rfl, rfl, fun i hi => hsame i (Nat.zero_le i) (Nat.lt_of_lt_of_eq hi (Nat.zero_add _).symm)⟩

theorem holds_of_unmarshal (h : val'.logUnmarshal m p = some (val, p')) :
    val.Valid ∧ m.Holds p val.bytes ∧ p' = p + val.bytes.length := by
  unfold logUnmarshal at h
  by_cases hcount : (UInt32.ofNat (m.getLE p 4)).toNat > HASH_COUNT
  · rw [if_pos hcount] at h
    cases h
  rw [if_neg hcount] at h
  cases hdigests : unmarshalDigests m (UInt32.ofNat (m.getLE p 4)).toNat 0 val'.digests (p + 4) with
  | none =>
    rw [hdigests] at h
    cases h
  | some res =>
    obtain ⟨r, p1⟩ := res
    rw [hdigests] at h
    cases h
    obtain ⟨hvalid, hholds, hp, _⟩ := holds_of_unmarshalDigests _ _ _ _ _ _ hdigests
    rw [bytes, length_append, Mem.length_bytesLE, ← Nat.add_assoc]
    refine ⟨⟨Nat.not_lt.mp hcount,
      fun i hi => hvalid i (Nat.zero_le i) (Nat.lt_of_lt_of_eq hi (Nat.zero_add _).symm)⟩,
      Mem.holds_append.mpr ⟨holds_field32 m p, ?_⟩, hp⟩
    rw [Mem.length_bytesLE]
    exact hholds

end TpmlDigestValues

/-! ## Event fields -/

namespace TpmEventField

variable {m : Mem} {p p' : Nat} {val val' : TpmEventField}

/-- The marshalled form. -/
def bytes (val : TpmEventField) : List UInt8 :=
  Mem.bytesLE 4 val.eventSize.toNat ++ arrayBytes val.event val.eventSize.toNat

attribute [grind =] bytes

/-- The limits that `logUnmarshal` enforces. -/
def Valid (val : TpmEventField) : Prop := val.eventSize.toNat ≤ MAX_TPM_LOG_MSG

theorem length_bytes (val : TpmEventField) : val.bytes.length = val.marshalSize := by
  rw [bytes, length_append, Mem.length_bytesLE, length_arrayBytes, marshalSize]

theorem logMarshal_eq (m : Mem) (p : Nat) (hvalid : val.Valid) :
    val.logMarshal m p = (m.write p val.bytes, some (p + val.bytes.length)) := by
  have hwrite := Mem.write_append m p (Mem.bytesLE 4 val.eventSize.toNat)
    (arrayBytes val.event val.eventSize.toNat)
  rw [Mem.length_bytesLE] at hwrite
  rw [length_bytes, marshalSize, ← Nat.add_assoc, logMarshal, if_neg (Nat.not_lt.mpr hvalid)]
  exact congrArg (·, some (p + 4 + val.eventSize.toNat)) hwrite

theorem unmarshal_of_holds (val' : TpmEventField) (hvalid : val.Valid) (h : m.Holds p val.bytes) :
    ∃ r, val'.logUnmarshal m p = some (r, p + val.bytes.length) ∧ r.Same val := by
  obtain ⟨hsize, hevent⟩ := Mem.holds_append.mp h
  rw [Mem.length_bytesLE] at hevent
  rw [length_bytes, marshalSize, ← Nat.add_assoc, logUnmarshal, field32_of_holds hsize,
    if_neg (Nat.not_lt.mpr hvalid)]
  exact ⟨_, rfl, rfl, fun i hi => copyOut_of_holds _ hevent hi⟩

theorem holds_of_unmarshal (h : val'.logUnmarshal m p = some (val, p')) :
    val.Valid ∧ m.Holds p val.bytes ∧ p' = p + val.bytes.length := by
  unfold logUnmarshal at h
  by_cases hsize : (UInt32.ofNat (m.getLE p 4)).toNat > MAX_TPM_LOG_MSG
  · rw [if_pos hsize] at h
    cases h
  rw [if_neg hsize] at h
  cases h
  rw [length_bytes, marshalSize, ← Nat.add_assoc]
  refine ⟨Nat.not_lt.mp hsize, Mem.holds_append.mpr ⟨holds_field32 m p, ?_⟩, rfl⟩
  rw [Mem.length_bytesLE]
  exact holds_copyOut _ m _ _

end TpmEventField

/-! ## Events -/

namespace TcgPcrEvent2

variable {m : Mem} {p p' bufSize : Nat} {val val' : TcgPcrEvent2}

/-- The marshalled form. -/
def bytes (val : TcgPcrEvent2) : List UInt8 :=
  Mem.bytesLE 4 val.pcrIndex.toNat ++ (Mem.bytesLE 4 val.eventType.toNat ++
    (val.digests.bytes ++ val.event.bytes))

attribute [grind =] bytes

/-- The limits that `logUnmarshal` enforces. -/
structure Valid (val : TcgPcrEvent2) : Prop where
  pcrIndex : val.pcrIndex.toNat ≤ IMPLEMENTATION_PCR
  eventType_pos : val.eventType.toNat ≠ 0
  eventType_lt : val.eventType.toNat < EV_INVALID
  digests : val.digests.Valid
  event : val.event.Valid

theorem length_bytes (val : TcgPcrEvent2) :
    val.bytes.length = 8 + val.digests.bytes.length + val.event.bytes.length := by
  simp only [bytes, length_append, Mem.length_bytesLE]
  omega

theorem marshalSize_eq (hcount : val.digests.count.toNat ≤ HASH_COUNT) :
    val.marshalSize = val.bytes.length := by
  rw [marshalSize, TpmlDigestValues.marshalSize_eq hcount, ← TpmEventField.length_bytes,
    length_bytes]

theorem logMarshal_eq (m : Mem) (p : Nat) (hvalid : val.Valid) :
    val.logMarshal m p = (m.write p val.bytes, some (p + val.bytes.length)) := by
  have hwrite1 := Mem.write_append m p (Mem.bytesLE 4 val.pcrIndex.toNat)
    (Mem.bytesLE 4 val.eventType.toNat)
  have hwrite2 := Mem.write_append m p
    (Mem.bytesLE 4 val.pcrIndex.toNat ++ Mem.bytesLE 4 val.eventType.toNat) val.digests.bytes
  have hwrite3 := Mem.write_append m p
    (Mem.bytesLE 4 val.pcrIndex.toNat ++ Mem.bytesLE 4 val.eventType.toNat ++ val.digests.bytes)
    val.event.bytes
  simp only [length_append, Mem.length_bytesLE, append_assoc] at hwrite1 hwrite2 hwrite3
  have hassoc : p + 4 + 4 = p + (4 + 4) := Nat.add_assoc p 4 4
  rw [logMarshal]
  dsimp only [putField]
  rw [hwrite1, hassoc, TpmlDigestValues.logMarshal_eq _ _ hvalid.digests.1]
  dsimp only
  rw [hwrite2, TpmEventField.logMarshal_eq _ _ hvalid.event, length_bytes]
  have hassoc' : p + (4 + 4) + val.digests.bytes.length = p + (4 + (4 + val.digests.bytes.length)) := by
    omega
  have hend : p + (4 + (4 + val.digests.bytes.length)) + val.event.bytes.length
      = p + (8 + val.digests.bytes.length + val.event.bytes.length) := by
    omega
  rw [hassoc', hwrite3, hend, bytes]

theorem unmarshal_of_holds (val' : TcgPcrEvent2) (hvalid : val.Valid) (h : m.Holds p val.bytes)
    (hbuf : SIZEOF_TCG_PCR_EVENT2 ≤ bufSize) :
    ∃ r, val'.logUnmarshal m p bufSize = some (r, p + val.bytes.length) ∧ r.Same val := by
  obtain ⟨hpcr, h⟩ := Mem.holds_append.mp h
  obtain ⟨htype, h⟩ := Mem.holds_append.mp h
  obtain ⟨hdigests, hevent⟩ := Mem.holds_append.mp h
  rw [Mem.length_bytesLE] at htype hdigests hevent
  rw [Mem.length_bytesLE] at hdigests hevent
  obtain ⟨ds, hds, hsame⟩ := TpmlDigestValues.unmarshal_of_holds val'.digests hvalid.digests hdigests
  obtain ⟨ev, hev, hsame'⟩ := TpmEventField.unmarshal_of_holds val'.event hvalid.event hevent
  have hbounds : ¬ (val.eventType.toNat = 0 ∨ val.eventType.toNat ≥ EV_INVALID) := by
    have hpos := hvalid.eventType_pos
    have hlt := hvalid.eventType_lt
    omega
  have hend : p + 4 + 4 + val.digests.bytes.length + val.event.bytes.length
      = p + val.bytes.length := by
    rw [length_bytes]
    omega
  rw [logUnmarshal, if_neg (Nat.not_lt.mpr hbuf), field32_of_holds hpcr,
    if_neg (Nat.not_lt.mpr hvalid.pcrIndex), field32_of_holds htype, if_neg hbounds, hds]
  dsimp only
  rw [hev, hend]
  exact ⟨_, rfl, rfl, rfl, hsame, hsame'⟩

theorem holds_of_unmarshal (h : val'.logUnmarshal m p bufSize = some (val, p')) :
    val.Valid ∧ m.Holds p val.bytes ∧ p' = p + val.bytes.length := by
  unfold logUnmarshal at h
  by_cases hbuf : SIZEOF_TCG_PCR_EVENT2 > bufSize
  · rw [if_pos hbuf] at h
    cases h
  rw [if_neg hbuf] at h
  by_cases hpcr : (UInt32.ofNat (m.getLE p 4)).toNat > IMPLEMENTATION_PCR
  · rw [if_pos hpcr] at h
    cases h
  rw [if_neg hpcr] at h
  by_cases htype : (UInt32.ofNat (m.getLE (p + 4) 4)).toNat = 0 ∨
      (UInt32.ofNat (m.getLE (p + 4) 4)).toNat ≥ EV_INVALID
  · rw [if_pos htype] at h
    cases h
  rw [if_neg htype] at h
  cases hdigests : val'.digests.logUnmarshal m (p + 4 + 4) with
  | none =>
    rw [hdigests] at h
    cases h
  | some res =>
    obtain ⟨ds, p1⟩ := res
    rw [hdigests] at h
    dsimp only at h
    cases hevent : val'.event.logUnmarshal m p1 with
    | none =>
      rw [hevent] at h
      cases h
    | some res =>
      obtain ⟨ev, p2⟩ := res
      rw [hevent] at h
      cases h
      obtain ⟨hvalid, hholds, hp1⟩ := TpmlDigestValues.holds_of_unmarshal hdigests
      obtain ⟨hvalid', hholds', hp2⟩ := TpmEventField.holds_of_unmarshal hevent
      rw [hp1] at hholds' hp2
      refine ⟨⟨Nat.not_lt.mp hpcr, fun hz => htype (.inl hz), Nat.not_le.mp fun hz => htype (.inr hz),
        hvalid, hvalid'⟩, ?_, ?_⟩
      · refine Mem.holds_append.mpr ⟨holds_field32 m p, Mem.holds_append.mpr ⟨?_,
          Mem.holds_append.mpr ⟨?_, ?_⟩⟩⟩
        · rw [Mem.length_bytesLE]
          exact holds_field32 m (p + 4)
        · rw [Mem.length_bytesLE, Mem.length_bytesLE]
          exact hholds
        · rw [Mem.length_bytesLE, Mem.length_bytesLE]
          exact hholds'
      · rw [hp2, length_bytes]
        dsimp only
        omega

end TcgPcrEvent2

/-! ## The event of the header -/

namespace TcgPcrEvent

variable {m : Mem} {p bufSize : Nat} {val val' : TcgPcrEvent}

/-- The marshalled form. -/
def bytes (val : TcgPcrEvent) : List UInt8 :=
  Mem.bytesLE 4 val.pcrIndex.toNat ++ (Mem.bytesLE 4 val.eventType.toNat ++
    (arrayBytes val.digest 20 ++ (Mem.bytesLE 4 val.eventSize.toNat ++
      arrayBytes val.event val.eventSize.toNat)))

attribute [grind =] bytes

/-- The limits that `logUnmarshal` enforces. -/
structure Valid (val : TcgPcrEvent) : Prop where
  pcrIndex : val.pcrIndex.toNat < IMPLEMENTATION_PCR
  eventType_pos : val.eventType.toNat ≠ 0
  eventType_lt : val.eventType.toNat < EV_INVALID
  eventSize : val.eventSize.toNat < MAX_TPM_LOG_MSG

theorem length_bytes (val : TcgPcrEvent) : val.bytes.length = 32 + val.eventSize.toNat := by
  simp only [bytes, length_append, Mem.length_bytesLE, length_arrayBytes]
  omega

theorem logMarshal_eq (m : Mem) (p : Nat) (hpos : val.eventSize > 0) :
    val.logMarshal m p = (m.write p val.bytes, p + val.bytes.length) := by
  have hwrite1 := Mem.write_append m p (Mem.bytesLE 4 val.pcrIndex.toNat)
    (Mem.bytesLE 4 val.eventType.toNat)
  have hwrite2 := Mem.write_append m p
    (Mem.bytesLE 4 val.pcrIndex.toNat ++ Mem.bytesLE 4 val.eventType.toNat)
    (arrayBytes val.digest 20)
  have hwrite3 := Mem.write_append m p
    (Mem.bytesLE 4 val.pcrIndex.toNat ++ Mem.bytesLE 4 val.eventType.toNat
      ++ arrayBytes val.digest 20) (Mem.bytesLE 4 val.eventSize.toNat)
  have hwrite4 := Mem.write_append m p
    (Mem.bytesLE 4 val.pcrIndex.toNat ++ Mem.bytesLE 4 val.eventType.toNat
      ++ arrayBytes val.digest 20 ++ Mem.bytesLE 4 val.eventSize.toNat)
    (arrayBytes val.event val.eventSize.toNat)
  simp only [length_append, Mem.length_bytesLE, length_arrayBytes, append_assoc,
    ← Nat.add_assoc] at hwrite1 hwrite2 hwrite3 hwrite4
  rw [logMarshal]
  dsimp only [putField, copyIn]
  change (if val.eventSize > 0 then
    (((((m.write p _).write (p + 4) _).write (p + 4 + 4) (arrayBytes val.digest 20)).write
      (p + 4 + 4 + 20) _).write (p + 4 + 4 + 20 + 4) (arrayBytes val.event _), _) else _) = _
  have hend : p + 4 + 4 + 20 + 4 + val.eventSize.toNat = p + (32 + val.eventSize.toNat) := by
    omega
  rw [if_pos hpos, hwrite1, hwrite2, hwrite3, hwrite4, length_bytes, hend]
  rfl

theorem unmarshal_of_holds (val' : TcgPcrEvent) (hvalid : val.Valid) (h : m.Holds p val.bytes)
    (hbuf : SIZEOF_TCG_PCR_EVENT ≤ bufSize) :
    ∃ r, val'.logUnmarshal m p bufSize = some (r, p + val.bytes.length) ∧
      r.eventType = val.eventType ∧ r.eventSize = val.eventSize := by
  obtain ⟨hpcr, h⟩ := Mem.holds_append.mp h
  obtain ⟨htype, h⟩ := Mem.holds_append.mp h
  obtain ⟨hdigest, h⟩ := Mem.holds_append.mp h
  obtain ⟨hsize, _⟩ := Mem.holds_append.mp h
  rw [Mem.length_bytesLE] at htype hsize
  rw [Mem.length_bytesLE, length_arrayBytes] at hsize
  have hbounds : ¬ (val.eventType.toNat = 0 ∨ val.eventType.toNat ≥ EV_INVALID) := by
    have hpos := hvalid.eventType_pos
    have hlt := hvalid.eventType_lt
    omega
  have hend : p + 4 + 4 + 20 + 4 + val.eventSize.toNat = p + val.bytes.length := by
    rw [length_bytes]
    omega
  rw [logUnmarshal, if_neg (Nat.not_lt.mpr hbuf), field32_of_holds hpcr,
    if_neg (Nat.not_le.mpr hvalid.pcrIndex), field32_of_holds htype, if_neg hbounds,
    field32_of_holds hsize, if_neg (Nat.not_le.mpr hvalid.eventSize), hend]
  exact ⟨_, rfl, rfl, rfl⟩

end TcgPcrEvent

end Hostboot.Trusted
