import Hostboot.Trusted.Responses

/-!
# Responses against their format

`Agrees` compares a function with the format of its record: the copies stay
inside the members of the destination, and the reader ends behind the record, or
null where there is none.  It is composed from chunk to chunk, and holds of every
function except where a list overruns its array.

* `TPML_TAGGED_TPM_PROPERTY` does not check its count at all.
* `TPML_DIGEST` checks its count against `FW_USED_PCR_COUNT`, while its array
  has `HASH_COUNT` digests.

`Record.call_safe_iff` says that these are the only responses that are written past
an array, whichever function they are given to.
-/

namespace Hostboot.Trusted

open Lib List

/-! ## Agreement with the format -/

/-- The copy stays inside one of the members. -/
def Inside (ms : List Record.Member) (c : Copy) : Prop :=
  ∃ m ∈ ms, m.1 ≤ c.dst ∧ c.dst + c.len ≤ m.1 + m.2

/-- The reader is at the rest of a response. -/
structure At (s : Reader) (r : Rest) : Prop where
  tpmBuf : s.tpmBuf = some r.pos
  tpmBufSize : s.tpmBufSize = r.left

/-- Between the two readers, the copies stay inside the members, and the second
is at `w`, or null for `none`. -/
structure Agrees (ms : List Record.Member) (s s' : Reader) (w : Option Rest) : Prop where
  copies : ∃ new, s'.copies = s.copies ++ new ∧ ∀ c ∈ new, Inside ms c
  null : w = none → s'.tpmBuf = none
  next : ∀ r, w = some r → At s' r

namespace Agrees

variable {ms ms' : List Record.Member} {s s1 s2 : Reader} {r : Rest}
  {w : Option Rest} {f : Rest → Option Rest}

theorem refl (ms : List Record.Member) (h : At s r) : Agrees ms s s (some r) :=
  ⟨⟨[], (append_nil _).symm, fun _ hc => absurd hc not_mem_nil⟩, fun hw => (nomatch hw),
    fun _ hr => Option.some.inj hr ▸ h⟩

theorem null_none (ms : List Record.Member) (s : Reader) : Agrees ms s s.null none :=
  ⟨⟨[], (append_nil _).symm, fun _ hc => absurd hc not_mem_nil⟩, fun _ => rfl,
    fun _ hr => nomatch hr⟩

/-- A function behind another: it is compared where the first one succeeded. -/
theorem bind (src : Mem) (h : Agrees ms s s1 w) (hsteps : Steps src s1 s2)
    (hnext : ∀ r, w = some r → At s1 r → Agrees ms s1 s2 (f r)) : Agrees ms s s2 (w.bind f) := by
  obtain ⟨new, hnew, hin⟩ := h.copies
  cases w with
  | none =>
    obtain ⟨hnull, hsame⟩ := hsteps.of_null (h.null rfl)
    exact ⟨⟨new, hsame.trans hnew, hin⟩, fun _ => hnull, fun _ hr => nomatch hr⟩
  | some r =>
    have h' := hnext r rfl (h.next r rfl)
    obtain ⟨new', hnew', hin'⟩ := h'.copies
    refine ⟨⟨new ++ new', ?_, fun c hc => ?_⟩, h'.null, h'.next⟩
    · rw [hnew', hnew, append_assoc]
    · exact (mem_append.mp hc).elim (hin c) (hin' c)

theorem chunk (src : Mem) (h : At s r) {addr size k : Nat} (hm : (addr, size) ∈ ms)
    (hk : k ≤ size) : Agrees ms s (unmarshalChunk src s addr k) (r.skip k) := by
  have hleft := h.tpmBufSize
  unfold Rest.skip
  by_cases hfits : k ≤ r.left
  · rw [if_pos hfits, unmarshalChunk_fits h.tpmBuf (hleft ▸ hfits)]
    refine ⟨⟨[⟨addr, r.pos, k⟩], rfl, fun c hc => ?_⟩, fun hw => (nomatch hw), fun r' hr => ?_⟩
    · rw [mem_singleton.mp hc]
      exact ⟨_, hm, Nat.le_refl _, Nat.add_le_add_left hk addr⟩
    · rw [← Option.some.inj hr]
      exact ⟨rfl, by rw [← hleft]⟩
  · rw [if_neg hfits, unmarshalChunk_short h.tpmBuf (by omega)]
    exact null_none ms s

end Agrees

section Words

variable {src : Mem} {s : Reader} {r r' : Rest} {addr k : Nat}

theorem unmarshalChunk_at (h : At s r) (hskip : r.skip k = some r') :
    At (unmarshalChunk src s addr k) r' :=
  (Agrees.chunk src h mem_cons_self (Nat.le_refl k) :
    Agrees [(addr, k)] s (unmarshalChunk src s addr k) (r.skip k)).next r' hskip

theorem unmarshalChunk_mem (h : At s r) (hskip : r.skip k = some r') {i : Nat} (hi : i < k) :
    (unmarshalChunk src s addr k).mem (addr + i) = src (r.pos + i) := by
  have hfits : k ≤ s.tpmBufSize := by
    unfold Rest.skip at hskip
    split at hskip
    · rw [h.tpmBufSize]
      assumption
    · cases hskip
  have hread : i < (src.read r.pos k).length := by
    rw [Mem.length_read]
    exact hi
  rw [unmarshalChunk_fits h.tpmBuf hfits]
  refine ((Mem.holds_write s.mem addr (src.read r.pos k)).byte hread).trans ?_
  simp [Mem.read]

theorem unmarshalChunk_get32 (h : At s r) (hskip : r.skip 4 = some r') :
    (unmarshalChunk src s addr 4).mem.get32 addr = src.get32 r.pos := by
  have hbyte : ∀ i < 4, (unmarshalChunk src s addr 4).mem (addr + i) = src (r.pos + i) :=
    fun i hi => unmarshalChunk_mem h hskip hi
  have hfirst := hbyte 0 (by decide)
  rw [Nat.add_zero, Nat.add_zero] at hfirst
  rw [Mem.get32_eq, Mem.get32_eq, hfirst, hbyte 1 (by decide), hbyte 2 (by decide),
    hbyte 3 (by decide)]

theorem unmarshalChunk_get16 (h : At s r) (hskip : r.skip 2 = some r') :
    (unmarshalChunk src s addr 2).mem.get16 addr = src.get16 r.pos := by
  have hbyte : ∀ i < 2, (unmarshalChunk src s addr 2).mem (addr + i) = src (r.pos + i) :=
    fun i hi => unmarshalChunk_mem h hskip hi
  have hfirst := hbyte 0 (by decide)
  rw [Nat.add_zero, Nat.add_zero] at hfirst
  rw [Mem.get16, Mem.get16, hfirst, hbyte 1 (by decide)]

theorem unmarshalChunk_byte (h : At s r) (hskip : r.skip 1 = some r') :
    (unmarshalChunk src s addr 1).mem addr = src r.pos := by
  have hbyte : ∀ i < 1, (unmarshalChunk src s addr 1).mem (addr + i) = src (r.pos + i) :=
    fun i hi => unmarshalChunk_mem h hskip hi
  exact hbyte 0 (by decide)

theorem skip_pos (hskip : r.skip k = some r') : r'.pos = r.pos + k ∧ r'.left = r.left - k ∧
    k ≤ r.left := by
  unfold Rest.skip at hskip
  split at hskip
  · cases hskip
    exact ⟨rfl, rfl, by assumption⟩
  · cases hskip

end Words

/-! ## The lists that are checked -/

section Checked

variable {src : Mem} {s : Reader} {r : Rest} {val : Nat} {ms : List Record.Member}

theorem TpmlHandle.agrees (h : At s r) (hms : Record.handleMembers val ⊆ ms) :
    Agrees ms s (TpmlHandle.unmarshal src val s) (Record.handles src r) := by
  have hcount : Agrees ms s (unmarshalChunk src s val 4) (r.skip 4) :=
    .chunk src h (hms mem_cons_self) (Nat.le_refl 4)
  have hsteps : Steps src (unmarshalChunk src s val 4) (TpmlHandle.unmarshal src val s) := by
    unfold TpmlHandle.unmarshal
    dsimp only
    split
    · exact .chunk _ _ (.refl _)
    · exact .null (.refl _)
  refine hcount.bind src hsteps fun r' hskip hat => ?_
  unfold TpmlHandle.unmarshal
  dsimp only
  rw [unmarshalChunk_get32 h hskip]
  split
  · refine .chunk src hat (hms (mem_cons_of_mem _ mem_cons_self)) ?_
    exact Nat.mul_le_mul_left 4 (by assumption)
  · exact .null_none ms _

theorem TpmsPcrSelection.agrees (h : At s r) (hms : Record.pcrSelectionMembers val ⊆ ms) :
    Agrees ms s (TpmsPcrSelection.unmarshal src val s) (Record.pcrSelection src r) := by
  have halg : Agrees ms s (unmarshalChunk src s val 2) (r.skip 2) :=
    .chunk src h (hms mem_cons_self) (Nat.le_refl 2)
  unfold TpmsPcrSelection.unmarshal
  dsimp only
  refine halg.bind src ?_ fun r' hskip hat => ?_
  · split
    · exact .null (.chunk _ _ (.refl _))
    · exact .chunk _ _ (.chunk _ _ (.refl _))
  have hsize : Agrees ms (unmarshalChunk src s val 2)
      (unmarshalChunk src (unmarshalChunk src s val 2) (val + 2) 1) (r'.skip 1) :=
    .chunk src hat (hms (mem_cons_of_mem _ mem_cons_self)) (Nat.le_refl 1)
  refine hsize.bind src ?_ fun r'' hskip' hat' => ?_
  · split
    · exact .null (.refl _)
    · exact .chunk _ _ (.refl _)
  · dsimp only
    rw [unmarshalChunk_byte hat hskip', hat'.tpmBuf]
    by_cases hmax : (src r'.pos).toNat ≤ PCR_SELECT_MAX
    · rw [if_neg (by omega), if_pos hmax, Nat.one_mul]
      refine .chunk src hat' (hms (mem_cons_of_mem _ (mem_cons_of_mem _
        mem_cons_self))) hmax
    · rw [if_pos ⟨Option.some_ne_none _, by omega⟩, if_neg hmax]
      exact .null_none ms _

theorem Tpm2bDigest.agrees (h : At s r) (hms : Record.digestMembers val ⊆ ms) :
    Agrees ms s (Tpm2bDigest.unmarshal src val s) (Record.digest src r) := by
  have hsize : Agrees ms s (unmarshalChunk src s val 2) (r.skip 2) :=
    .chunk src h (hms mem_cons_self) (Nat.le_refl 2)
  have hsteps : Steps src (unmarshalChunk src s val 2) (Tpm2bDigest.unmarshal src val s) := by
    unfold Tpm2bDigest.unmarshal
    dsimp only
    split
    · exact .null (.refl _)
    · exact .chunk _ _ (.refl _)
  refine hsize.bind src hsteps fun r' hskip hat => ?_
  unfold Tpm2bDigest.unmarshal
  dsimp only
  rw [unmarshalChunk_get16 h hskip, hat.tpmBuf]
  by_cases hmax : src.get16 r.pos ≤ SIZEOF_TPMU_HA
  · rw [if_neg (by omega), if_pos hmax, Nat.one_mul]
    exact .chunk src hat (hms (mem_cons_of_mem _ mem_cons_self)) hmax
  · rw [if_pos ⟨Option.some_ne_none _, by omega⟩, if_neg hmax]
    exact .null_none ms _

variable {unmarshal : Nat → Reader → Reader} {item : Rest → Option Rest}
  {itemMembers : Nat → List Record.Member} {sizeof : Nat}

theorem unmarshalEach_agrees (hsteps : ∀ val s, Steps src s (unmarshal val s))
    (hitem : ∀ {val s r}, At s r → itemMembers val ⊆ ms →
      Agrees ms s (unmarshal val s) (item r)) (n : Nat) :
    ∀ {val s r}, At s r → Record.arrayMembers itemMembers sizeof n val ⊆ ms →
      Agrees ms s (unmarshalEach unmarshal sizeof n val s) (Rest.each item n r) := by
  induction n with
  | zero => exact fun h _ => .refl ms h
  | succ n ih =>
    intro val s r h hms
    have hfirst := hitem h (List.Subset.trans (subset_append_left _ _) hms)
    have htail := List.Subset.trans (subset_append_right _ _) hms
    rw [unmarshalEach, Rest.each]
    refine hfirst.bind src ?_ fun r' _ hat => ?_
    · split
      · exact .refl _
      · exact unmarshalEach_steps src hsteps sizeof _ _ _
    · rw [if_neg (by rw [hat.tpmBuf]; exact Option.some_ne_none _)]
      exact ih hat htail

theorem arrayMembers_mono {m n : Nat} (h : m ≤ n) (itemMembers : Nat → List Record.Member)
    (sizeof val : Nat) :
    Record.arrayMembers itemMembers sizeof m val ⊆ Record.arrayMembers itemMembers sizeof n val := by
  induction m generalizing n val with
  | zero => exact nil_subset _
  | succ m ih =>
    obtain ⟨n, rfl⟩ : ∃ k, n = k + 1 := ⟨n - 1, by omega⟩
    exact append_subset.mpr ⟨subset_append_left _ _,
      List.Subset.trans (ih (by omega) _) (subset_append_right _ _)⟩

theorem unmarshalList_agrees (hsteps : ∀ val s, Steps src s (unmarshal val s))
    (hitem : ∀ {val s r}, At s r → itemMembers val ⊆ ms →
      Agrees ms s (unmarshal val s) (item r))
    (h : At s r) {cap maxCount : Nat} (hcap : cap ≤ maxCount)
    (hms : (val, 4) :: Record.arrayMembers itemMembers sizeof cap (val + 4) ⊆ ms)
    (hcount : src.get32 r.pos ≤ cap ∨ maxCount < src.get32 r.pos) :
    Agrees ms s (unmarshalList src maxCount unmarshal sizeof val s) (Rest.listed src cap item r) := by
  have hfirst : Agrees ms s (unmarshalChunk src s val 4) (r.skip 4) :=
    .chunk src h (hms mem_cons_self) (Nat.le_refl 4)
  unfold Rest.listed unmarshalList
  dsimp only
  refine hfirst.bind src ?_ fun r' hskip hat => ?_
  · split
    · exact .null (.refl _)
    split
    · exact unmarshalEach_steps src hsteps sizeof _ _ _
    · exact .refl _
  · have hptr : (unmarshalChunk src s val 4).tpmBuf ≠ none := by
      rw [hat.tpmBuf]
      exact Option.some_ne_none _
    rw [unmarshalChunk_get32 h hskip]
    rcases hcount with hcount | hcount
    · rw [if_neg (by omega), if_pos hptr, if_pos hcount]
      refine unmarshalEach_agrees hsteps hitem _ hat ?_
      exact List.Subset.trans (arrayMembers_mono hcount _ _ _)
        (List.Subset.trans (subset_cons_self _ _) hms)
    · rw [if_pos ⟨hptr, hcount⟩, if_neg (by omega)]
      exact .null_none ms _

theorem TpmlPcrSelection.agrees (h : At s r) (hms : Record.pcrSelectionsMembers val ⊆ ms) :
    Agrees ms s (TpmlPcrSelection.unmarshal src val s) (Record.pcrSelections src r) :=
  unmarshalList_agrees (TpmsPcrSelection.steps src) TpmsPcrSelection.agrees h (Nat.le_refl _) hms
    (Nat.lt_or_ge _ _).symm

end Checked

/-! ## The lists that overrun their arrays -/

/-- More properties than the array has, all of them in the response. -/
def PropertiesOverrun (src : Mem) (r : Rest) : Prop :=
  MAX_TPM_PROPERTIES < src.get32 r.pos ∧
    4 + SIZEOF_TPMS_TAGGED_PROPERTY * src.get32 r.pos ≤ r.left

/-- The properties are asked for. -/
def CapabilityOverrun (src : Mem) (r : Rest) : Prop :=
  src.get32 r.pos = TPM_CAP_TPM_PROPERTIES ∧ ∃ r', r.skip 4 = some r' ∧ PropertiesOverrun src r'

/-- More digests than the array has, but no more than PCRs are used, and a
second digest begins in the response. -/
def DigestsOverrun (src : Mem) (r : Rest) : Prop :=
  HASH_COUNT < src.get32 r.pos ∧ src.get32 r.pos ≤ FW_USED_PCR_COUNT ∧
    ∃ r', (r.skip 4).bind (Record.digest src) = some r' ∧ 2 ≤ r'.left

/-- The responses that are written past an array. -/
def Record.Overruns (src : Mem) (outBufSize : Nat) (record : Record) (r : Rest) : Prop :=
  match record with
  | tpmlTaggedTpmProperty => PropertiesOverrun src r
  | tpmsCapabilityData => CapabilityOverrun src r
  | tpm2GetCapabilityOut =>
    SIZEOF_TPM2_GET_CAPABILITY_OUT ≤ outBufSize ∧ ∃ r', r.skip 1 = some r' ∧ CapabilityOverrun src r'
  | tpmlDigest => DigestsOverrun src r
  | tpm2PcrReadOut =>
    SIZEOF_TPM2_PCR_READ_OUT ≤ outBufSize ∧
      ∃ r', (r.skip 4).bind (Record.pcrSelections src) = some r' ∧ DigestsOverrun src r'
  | _ => False

section Overruns

variable {src : Mem} {s : Reader} {r : Rest} {val : Nat} {ms : List Record.Member}

theorem TpmlTaggedTpmProperty.agrees (h : At s r) (hms : Record.propertyMembers val ⊆ ms)
    (hno : ¬ PropertiesOverrun src r) :
    Agrees ms s (TpmlTaggedTpmProperty.unmarshal src val s) (Record.properties src r) := by
  have hcount : Agrees ms s (unmarshalChunk src s val 4) (r.skip 4) :=
    .chunk src h (hms mem_cons_self) (Nat.le_refl 4)
  unfold TpmlTaggedTpmProperty.unmarshal
  dsimp only
  refine hcount.bind src (.chunk _ _ (.refl _)) fun r' hskip hat => ?_
  rw [unmarshalChunk_get32 h hskip]
  by_cases hmax : src.get32 r.pos ≤ MAX_TPM_PROPERTIES
  · rw [if_pos hmax]
    exact .chunk src hat (hms (mem_cons_of_mem _ mem_cons_self))
      (Nat.mul_le_mul_left _ hmax)
  · -- the count is not refused, but the bytes are not there
    have hsize := hat.tpmBufSize
    obtain ⟨_, hleft, hle⟩ := skip_pos hskip
    unfold PropertiesOverrun at hno
    rw [if_neg hmax, unmarshalChunk_short hat.tpmBuf (by omega)]
    exact .null_none ms _

theorem TpmlTaggedTpmProperty.overrun (val : Nat) (h : At s r) (ho : PropertiesOverrun src r) :
    ⟨val + 4, r.pos + 4, SIZEOF_TPMS_TAGGED_PROPERTY * src.get32 r.pos⟩
      ∈ (TpmlTaggedTpmProperty.unmarshal src val s).copies := by
  obtain ⟨_, hroom⟩ := ho
  have hskip : r.skip 4 = some ⟨r.pos + 4, r.left - 4⟩ := if_pos (by omega)
  have hat : At (unmarshalChunk src s val 4) _ := unmarshalChunk_at h hskip
  have hsize := hat.tpmBufSize
  unfold TpmlTaggedTpmProperty.unmarshal
  dsimp only at hsize ⊢
  rw [unmarshalChunk_get32 h hskip, unmarshalChunk_fits hat.tpmBuf (by omega)]
  exact mem_append_right _ mem_cons_self

theorem TpmsCapabilityData.agrees (h : At s r)
    (hms : Record.capabilityMembers (src.get32 r.pos) val ⊆ ms) (hno : ¬ CapabilityOverrun src r) :
    Agrees ms s (TpmsCapabilityData.unmarshal src val s) (Record.capabilityData src r) := by
  have hcapability : Agrees ms s (unmarshalChunk src s val 4) (r.skip 4) :=
    .chunk src h (hms mem_cons_self) (Nat.le_refl 4)
  have hmembers := List.Subset.trans (subset_cons_self _ _) hms
  unfold TpmsCapabilityData.unmarshal
  dsimp only
  refine hcapability.bind src ?_ fun r' hskip hat => ?_
  · split
    · exact TpmlHandle.steps src _ _
    split
    · exact TpmlTaggedTpmProperty.steps src _ _
    · exact .null (.refl _)
  rw [unmarshalChunk_get32 h hskip]
  by_cases hhandles : src.get32 r.pos = TPM_CAP_HANDLES
  · rw [if_pos hhandles] at hmembers
    rw [if_pos hhandles, if_pos hhandles]
    exact TpmlHandle.agrees hat hmembers
  rw [if_neg hhandles] at hmembers
  rw [if_neg hhandles, if_neg hhandles]
  by_cases hproperties : src.get32 r.pos = TPM_CAP_TPM_PROPERTIES
  · rw [if_pos hproperties, if_pos hproperties]
    exact TpmlTaggedTpmProperty.agrees hat hmembers fun ho => hno ⟨hproperties, r', hskip, ho⟩
  · rw [if_neg hproperties, if_neg hproperties]
    exact .null_none ms _

theorem TpmsCapabilityData.overrun (val : Nat) (h : At s r) (ho : CapabilityOverrun src r) :
    ⟨val + 4 + 4, r.pos + 4 + 4, SIZEOF_TPMS_TAGGED_PROPERTY * src.get32 (r.pos + 4)⟩
        ∈ (TpmsCapabilityData.unmarshal src val s).copies ∧
      MAX_TPM_PROPERTIES < src.get32 (r.pos + 4) := by
  obtain ⟨hproperties, r', hskip, ho⟩ := ho
  obtain ⟨hpos, _, _⟩ := skip_pos hskip
  have hat : At (unmarshalChunk src s val 4) _ := unmarshalChunk_at h hskip
  have hne : ¬ TPM_CAP_TPM_PROPERTIES = TPM_CAP_HANDLES := by decide
  have hmany := ho.1
  rw [hpos] at hmany
  refine ⟨?_, hmany⟩
  unfold TpmsCapabilityData.unmarshal
  dsimp only
  rw [unmarshalChunk_get32 h hskip, hproperties, if_neg hne, if_pos rfl, ← hpos]
  exact TpmlTaggedTpmProperty.overrun (val + 4) hat ho

/-- The first of two or more digests was read, and the second does not begin. -/
theorem TpmlDigest.agrees (h : At s r) (hms : Record.digestsMembers val ⊆ ms)
    (hno : ¬ DigestsOverrun src r) :
    Agrees ms s (TpmlDigest.unmarshal src val s) (Record.digests src r) := by
  by_cases hcount : src.get32 r.pos ≤ HASH_COUNT ∨ FW_USED_PCR_COUNT < src.get32 r.pos
  · exact unmarshalList_agrees (Tpm2bDigest.steps src) Tpm2bDigest.agrees h (by decide) hms hcount
  rw [not_or, Nat.not_le, Nat.not_lt] at hcount
  obtain ⟨n, hn⟩ : ∃ n, src.get32 r.pos = n + 2 := by
    have hlow : 1 < src.get32 r.pos := hcount.1
    exact ⟨src.get32 r.pos - 2, by omega⟩
  have hfirst : Agrees ms s (unmarshalChunk src s val 4) (r.skip 4) :=
    .chunk src h (hms mem_cons_self) (Nat.le_refl 4)
  unfold TpmlDigest.unmarshal unmarshalList Record.digests Rest.listed
  dsimp only
  refine hfirst.bind src ?_ fun r' hskip hat => ?_
  · split
    · exact .null (.refl _)
    split
    · exact unmarshalEach_steps src (Tpm2bDigest.steps src) _ _ _ _
    · exact .refl _
  have hptr : (unmarshalChunk src s val 4).tpmBuf ≠ none := by
    rw [hat.tpmBuf]
    exact Option.some_ne_none _
  have hdigest : Agrees ms (unmarshalChunk src s val 4)
      (Tpm2bDigest.unmarshal src (val + 4) (unmarshalChunk src s val 4)) (Record.digest src r') :=
    Tpm2bDigest.agrees hat (List.Subset.trans (subset_append_left _ _)
      (List.Subset.trans (subset_cons_self _ _) hms))
  rw [unmarshalChunk_get32 h hskip, if_neg (by omega), if_pos hptr, if_neg (by omega), hn,
    unmarshalEach]
  cases hread : Record.digest src r' with
  | none =>
    rw [hread] at hdigest
    rw [if_pos (hdigest.null rfl)]
    exact hdigest
  | some r'' =>
    rw [hread] at hdigest
    have hat' := hdigest.next r'' rfl
    have hsize := hat'.tpmBufSize
    have hshort : r''.left < 2 := by
      refine Nat.not_le.mp fun hroom => hno ⟨hcount.1, hcount.2, r'', ?_, hroom⟩
      rw [hskip]
      exact hread
    rw [if_neg (by rw [hat'.tpmBuf]; exact Option.some_ne_none _), unmarshalEach]
    have hnull : ∀ a, Tpm2bDigest.unmarshal src a
        (Tpm2bDigest.unmarshal src (val + 4) (unmarshalChunk src s val 4))
          = (Tpm2bDigest.unmarshal src (val + 4) (unmarshalChunk src s val 4)).null := by
      intro a
      rw [Tpm2bDigest.unmarshal, unmarshalChunk_short hat'.tpmBuf (by omega)]
      rw [if_neg fun hbad => hbad.1 rfl]
      exact unmarshalChunk_null src rfl _ _
    rw [hnull]
    exact ⟨hdigest.copies, fun _ => rfl, fun _ hr => absurd hr (Option.some_ne_none _).symm⟩

theorem TpmlDigest.overrun (val : Nat) (h : At s r) (ho : DigestsOverrun src r) :
    ∃ q, ⟨val + SIZEOF_TPML_DIGEST, q, 2⟩ ∈ (TpmlDigest.unmarshal src val s).copies := by
  obtain ⟨hlow, hhigh, r'', hread, hroom⟩ := ho
  obtain ⟨n, hn⟩ : ∃ n, src.get32 r.pos = n + 2 := by
    have hlow' : 1 < src.get32 r.pos := hlow
    exact ⟨src.get32 r.pos - 2, by omega⟩
  obtain ⟨r', hskip, hread⟩ := Option.bind_eq_some_iff.mp hread
  have hat : At (unmarshalChunk src s val 4) _ := unmarshalChunk_at h hskip
  have hptr : (unmarshalChunk src s val 4).tpmBuf ≠ none := by
    rw [hat.tpmBuf]
    exact Option.some_ne_none _
  have hat' : At (Tpm2bDigest.unmarshal src (val + 4) (unmarshalChunk src s val 4)) r'' :=
    (Tpm2bDigest.agrees hat (List.Subset.refl _)).next r'' hread
  have hsize := hat'.tpmBufSize
  unfold TpmlDigest.unmarshal unmarshalList
  dsimp only
  rw [unmarshalChunk_get32 h hskip, if_neg (by omega), if_pos hptr, hn, unmarshalEach]
  rw [if_neg (by rw [hat'.tpmBuf]; exact Option.some_ne_none _), unmarshalEach]
  generalize hs2 : Tpm2bDigest.unmarshal src (val + 4) (unmarshalChunk src s val 4) = s2
    at hat' hsize
  -- the size of the second digest is copied behind the array
  have hcopy : ⟨val + SIZEOF_TPML_DIGEST, r''.pos, 2⟩
      ∈ (unmarshalChunk src s2 (val + 4 + SIZEOF_TPM2B_DIGEST) 2).copies := by
    rw [unmarshalChunk_fits hat'.tpmBuf (by omega)]
    exact mem_append_right _ mem_cons_self
  have hsecond : Steps src (unmarshalChunk src s2 (val + 4 + SIZEOF_TPM2B_DIGEST) 2)
      (Tpm2bDigest.unmarshal src (val + 4 + SIZEOF_TPM2B_DIGEST) s2) := by
    unfold Tpm2bDigest.unmarshal
    dsimp only
    split
    · exact .null (.refl _)
    · exact .chunk _ _ (.refl _)
  refine ⟨r''.pos, ?_⟩
  split
  · exact hsecond.copies_grow.subset hcopy
  · exact (hsecond.trans (unmarshalEach_steps src (Tpm2bDigest.steps src) _ _ _
      _)).copies_grow.subset hcopy

end Overruns

/-! ## The responses that are safe -/

namespace Record

variable {src : Mem} {s : Reader} {r : Rest} {val outBufSize : Nat}

theorem agrees (record : Record) (h : At s r) (hno : ¬ record.Overruns src outBufSize r) :
    Agrees (record.members src val r.pos) s (record.unmarshal src outBufSize val s)
      (record.wire src outBufSize r) := by
  have hself := List.Subset.refl (record.members src val r.pos)
  cases record with
  | tpmlTaggedTpmProperty => exact TpmlTaggedTpmProperty.agrees h hself hno
  | tpmlHandle => exact TpmlHandle.agrees h hself
  | tpmsCapabilityData => exact TpmsCapabilityData.agrees h hself hno
  | tpm2GetCapabilityOut =>
    show Agrees _ s (Tpm2GetCapabilityOut.unmarshal src val outBufSize s)
      (if SIZEOF_TPM2_GET_CAPABILITY_OUT > outBufSize then none
        else (r.skip 1).bind (capabilityData src))
    unfold Tpm2GetCapabilityOut.unmarshal
    by_cases hsmall : SIZEOF_TPM2_GET_CAPABILITY_OUT > outBufSize
    · rw [if_pos hsmall, if_pos hsmall]
      exact .null_none _ s
    rw [if_neg hsmall, if_neg hsmall]
    refine (Agrees.chunk src h (hself mem_cons_self) (Nat.le_refl 1)).bind src
      (TpmsCapabilityData.steps src _ _) fun r' hskip hat => ?_
    have hpos := (skip_pos hskip).1
    refine TpmsCapabilityData.agrees hat ?_ fun ho => hno ⟨Nat.not_lt.mp hsmall, r', hskip, ho⟩
    rw [hpos]
    exact subset_cons_self _ _
  | tpmsPcrSelection => exact TpmsPcrSelection.agrees h hself
  | tpmlPcrSelection => exact TpmlPcrSelection.agrees h hself
  | tpm2bDigest => exact Tpm2bDigest.agrees h hself
  | tpmlDigest => exact TpmlDigest.agrees h hself hno
  | tpm2PcrReadOut =>
    show Agrees _ s (Tpm2PcrReadOut.unmarshal src val outBufSize s)
      (if SIZEOF_TPM2_PCR_READ_OUT > outBufSize then none
        else ((r.skip 4).bind (pcrSelections src)).bind (digests src))
    unfold Tpm2PcrReadOut.unmarshal
    by_cases hsmall : SIZEOF_TPM2_PCR_READ_OUT > outBufSize
    · rw [if_pos hsmall, if_pos hsmall]
      exact .null_none _ s
    rw [if_neg hsmall, if_neg hsmall]
    have hselections := (Agrees.chunk src h (hself mem_cons_self) (Nat.le_refl 4)).bind src
      (TpmlPcrSelection.steps src (val + SIZEOF_TPM2_BASE_OUT + 4) _) fun r' _ hat =>
        TpmlPcrSelection.agrees hat (List.Subset.trans (subset_append_left _ _)
          (subset_cons_self _ _))
    refine hselections.bind src (TpmlDigest.steps src _ _) fun r' hread hat => ?_
    exact TpmlDigest.agrees hat (List.Subset.trans (subset_append_right _ _)
      (subset_cons_self _ _)) fun ho => hno ⟨Nat.not_lt.mp hsmall, r', hread, ho⟩

/-- No member reaches past `e`. -/
def Ends (ms : List Member) (e : Nat) : Prop := ∀ m ∈ ms, m.1 + m.2 ≤ e

theorem Ends.not_inside {ms : List Member} {e : Nat} {c : Copy} (h : Ends ms e)
    (hc : e < c.dst + c.len) : ¬ Inside ms c := by
  rintro ⟨m, hm, _, hhigh⟩
  have hend := h m hm
  omega

theorem propertyMembers_ends (val : Nat) : Ends (propertyMembers val) (val + 20) :=
  forall_mem_cons.mpr ⟨by dsimp only; omega,
    forall_mem_singleton.mpr (Nat.le_of_eq (Nat.add_assoc val 4 16))⟩

theorem capabilityMembers_ends (val : Nat) :
    Ends (capabilityMembers TPM_CAP_TPM_PROPERTIES val) (val + 24) :=
  forall_mem_cons.mpr ⟨by dsimp only; omega, propertyMembers_ends (val + 4)⟩

theorem digestsMembers_ends (val : Nat) : Ends (digestsMembers val) (val + SIZEOF_TPML_DIGEST) := by
  have hsize : SIZEOF_TPML_DIGEST = 38 := rfl
  have hdigest : SIZEOF_TPMU_HA = 32 := rfl
  refine forall_mem_cons.mpr ⟨by dsimp only; omega, ?_⟩
  refine forall_mem_cons.mpr ⟨by dsimp only; omega, ?_⟩
  exact forall_mem_singleton.mpr (by dsimp only; omega)

theorem pcrSelectionsMembers_ends (val : Nat) :
    Ends (pcrSelectionsMembers val) (val + SIZEOF_TPML_PCR_SELECTION) := by
  have hsize : SIZEOF_TPML_PCR_SELECTION = 10 := rfl
  have hselect : PCR_SELECT_MAX = 3 := rfl
  refine forall_mem_cons.mpr ⟨by dsimp only; omega, ?_⟩
  refine forall_mem_cons.mpr ⟨by dsimp only; omega, ?_⟩
  refine forall_mem_cons.mpr ⟨by dsimp only; omega, ?_⟩
  exact forall_mem_singleton.mpr (by dsimp only; omega)

theorem overrun (record : Record) (h : At s r) (ho : record.Overruns src outBufSize r) :
    ∃ c ∈ (record.unmarshal src outBufSize val s).copies,
      ¬ Inside (record.members src val r.pos) c := by
  have hproperty : SIZEOF_TPMS_TAGGED_PROPERTY = 8 := rfl
  have hmax : MAX_TPM_PROPERTIES = 2 := rfl
  cases record with
  | tpmlTaggedTpmProperty =>
    have hmany := ho.1
    refine ⟨_, TpmlTaggedTpmProperty.overrun val h ho, (propertyMembers_ends val).not_inside ?_⟩
    rw [hproperty]
    dsimp only
    omega
  | tpmsCapabilityData =>
    obtain ⟨hcopy, hmany⟩ := TpmsCapabilityData.overrun val h ho
    refine ⟨_, hcopy, ?_⟩
    show ¬ Inside (capabilityMembers (src.get32 r.pos) val) _
    rw [ho.1]
    refine (capabilityMembers_ends val).not_inside ?_
    rw [hproperty]
    dsimp only
    omega
  | tpm2GetCapabilityOut =>
    obtain ⟨hbig, r', hskip, ho⟩ := ho
    have hpos := (skip_pos hskip).1
    have hat : At (unmarshalChunk src s (val + SIZEOF_TPM2_BASE_OUT) 1) r' :=
      unmarshalChunk_at h hskip
    obtain ⟨hcopy, hmany⟩ := TpmsCapabilityData.overrun (val + SIZEOF_TPM2_BASE_OUT + 1) hat ho
    have hbehind : tpm2GetCapabilityOut.unmarshal src outBufSize val s
        = TpmsCapabilityData.unmarshal src (val + SIZEOF_TPM2_BASE_OUT + 1)
          (unmarshalChunk src s (val + SIZEOF_TPM2_BASE_OUT) 1) := if_neg (Nat.not_lt.mpr hbig)
    rw [hbehind]
    refine ⟨_, hcopy, ?_⟩
    show ¬ Inside ((val + SIZEOF_TPM2_BASE_OUT, 1) :: capabilityMembers (src.get32 (r.pos + 1)) _) _
    rw [← hpos, ho.1]
    refine Ends.not_inside (forall_mem_cons.mpr ⟨?_, capabilityMembers_ends _⟩) ?_
    · dsimp only
      omega
    · rw [hproperty]
      dsimp only
      omega
  | tpmlDigest =>
    obtain ⟨q, hcopy⟩ := TpmlDigest.overrun val h ho
    refine ⟨_, hcopy, (digestsMembers_ends val).not_inside ?_⟩
    dsimp only
    omega
  | tpm2PcrReadOut =>
    obtain ⟨hbig, r'', hread, ho⟩ := ho
    obtain ⟨r', hskip, hread⟩ := Option.bind_eq_some_iff.mp hread
    have hat : At (unmarshalChunk src s (val + SIZEOF_TPM2_BASE_OUT) 4) r' :=
      unmarshalChunk_at h hskip
    have hselections := (TpmlPcrSelection.agrees hat (List.Subset.refl
      (pcrSelectionsMembers (val + SIZEOF_TPM2_BASE_OUT + 4)))).next r'' hread
    obtain ⟨q, hcopy⟩ := TpmlDigest.overrun
      (val + SIZEOF_TPM2_BASE_OUT + 4 + SIZEOF_TPML_PCR_SELECTION) hselections ho
    have hbehind : tpm2PcrReadOut.unmarshal src outBufSize val s
        = TpmlDigest.unmarshal src (val + SIZEOF_TPM2_BASE_OUT + 4 + SIZEOF_TPML_PCR_SELECTION)
          (TpmlPcrSelection.unmarshal src (val + SIZEOF_TPM2_BASE_OUT + 4)
            (unmarshalChunk src s (val + SIZEOF_TPM2_BASE_OUT) 4)) := if_neg (Nat.not_lt.mpr hbig)
    rw [hbehind]
    refine ⟨_, hcopy, ?_⟩
    have hlast := digestsMembers_ends (val + SIZEOF_TPM2_BASE_OUT + 4 + SIZEOF_TPML_PCR_SELECTION)
    have hmiddle := pcrSelectionsMembers_ends (val + SIZEOF_TPM2_BASE_OUT + 4)
    refine Ends.not_inside (forall_mem_cons.mpr ⟨?_, fun m hm => ?_⟩)
      (Nat.lt_add_of_pos_right Nat.two_pos)
    · dsimp only
      omega
    · dsimp only
      rcases mem_append.mp hm with hm | hm
      · have hend := hmiddle m hm
        omega
      · exact hlast m hm
  | tpmlHandle => exact ho.elim
  | tpmsPcrSelection => exact ho.elim
  | tpmlPcrSelection => exact ho.elim
  | tpm2bDigest => exact ho.elim

/-! ## The claim of the interface -/

section Calls

variable (src : Mem) (outBufSize val : Nat) (tpmBuf : Option Nat) (size : Nat) (mem : Mem)

/-- A call for a record at `val`, with `size` bytes of a response. -/
def call (record : Record) : Reader := record.unmarshal src outBufSize val ⟨tpmBuf, size, mem, []⟩

/-- Every copy stays inside one member of the destination and inside the bytes
of the response, the pointer and the size are moved together, and the pointer is
null for a response that is not a record with counts and sizes in range. -/
structure Safe (record : Record) : Prop where
  inside : ∀ c ∈ (record.call src outBufSize val tpmBuf size mem).copies,
    ∃ p, tpmBuf = some p ∧ Inside (record.members src val p) c
  within : ∀ p, tpmBuf = some p → Within p size (record.call src outBufSize val tpmBuf size mem)
  next : (record.call src outBufSize val tpmBuf size mem).tpmBuf
    = (tpmBuf.bind fun p => record.wire src outBufSize ⟨p, size⟩).map Rest.pos

theorem Overruns.not_safe {record : Record} {p : Nat}
    (ho : record.Overruns src outBufSize ⟨p, size⟩) :
    ¬ record.Safe src outBufSize val (some p) size mem := by
  intro hsafe
  have hat : At ⟨some p, size, mem, []⟩ ⟨p, size⟩ := ⟨rfl, rfl⟩
  obtain ⟨c, hc, hout⟩ := record.overrun hat ho
  obtain ⟨q, hq, hin⟩ := hsafe.inside c hc
  cases hq
  exact hout hin

/-- A call is safe exactly when its response does not overrun an array. -/
theorem call_safe_iff (record : Record) :
    record.Safe src outBufSize val tpmBuf size mem ↔
      ¬ ∃ p, tpmBuf = some p ∧ record.Overruns src outBufSize ⟨p, size⟩ := by
  have hsteps := steps src val ⟨tpmBuf, size, mem, []⟩ outBufSize record
  constructor
  · rintro hsafe ⟨p, rfl, ho⟩
    exact ho.not_safe _ _ _ _ _ hsafe
  · intro hno
    cases tpmBuf with
    | none =>
      obtain ⟨hnull, hcopies⟩ := hsteps.of_null rfl
      refine ⟨fun c hc => ?_, fun p hp => (nomatch hp), hnull⟩
      rw [call, hcopies] at hc
      exact absurd hc not_mem_nil
    | some p =>
      have hat : At ⟨some p, size, mem, []⟩ ⟨p, size⟩ := ⟨rfl, rfl⟩
      have hagrees : Agrees (record.members src val p) ⟨some p, size, mem, []⟩
          (record.call src outBufSize val (some p) size mem)
          (record.wire src outBufSize ⟨p, size⟩) :=
        @agrees src _ ⟨p, size⟩ val outBufSize record hat fun ho => hno ⟨p, rfl, ho⟩
      obtain ⟨new, hnew, hin⟩ := hagrees.copies
      rw [nil_append] at hnew
      refine ⟨fun c hc => ⟨p, rfl, hin c (hnew ▸ hc)⟩, fun q hq => ?_, ?_⟩
      · cases hq
        exact hsteps.within ⟨fun _ hc => absurd hc not_mem_nil, Nat.le_refl _,
          fun _ hq => by cases hq; rfl⟩
      · show _ = (record.wire src outBufSize ⟨p, size⟩).map Rest.pos
        cases hw : record.wire src outBufSize ⟨p, size⟩ with
        | none => exact hagrees.null hw
        | some r => exact (hagrees.next r hw).tpmBuf

end Calls

/-- The bytes of a list, and zeros behind it. -/
def response (bs : List UInt8) : Mem := fun x => bs.getD x 0

/-- Three properties. -/
theorem unsafe_properties : ¬ ∀ (record : Record) (src : Mem) (outBufSize val : Nat)
    (tpmBuf : Option Nat) (size : Nat) (mem : Mem),
    record.Safe src outBufSize val tpmBuf size mem := by
  intro h
  have hover : tpmlTaggedTpmProperty.Overruns (response [0, 0, 0, 3]) 0 ⟨0, 28⟩ :=
    (by decide : 2 < (response [0, 0, 0, 3]).get32 0 ∧
      4 + 8 * (response [0, 0, 0, 3]).get32 0 ≤ 28)
  exact hover.not_safe _ _ _ _ _ (h _ _ _ 0 (some 0) 28 fun _ => 0)

end Record

end Hostboot.Trusted
