import Hostboot.Vpd.KeywordWalk
import Mathlib.Data.List.Find

/-!
# The records in the table of contents

The `PT` keywords of the record `VTOC` hold the entries of the other records.
`findRecordMetaDataSeeprom` should return the first complete entry that has the
name it looks for, and no entry should come from anything else (`RightLookup`).

The code reads one keyword after the other into one buffer and looks at every
place of an entry that starts in the keyword.  The last of these entries need
not be complete, and then what is behind it in the buffer is from a keyword
before.  It looks at a keyword that does not end in the record as well, and it
stops only when it finds no further keyword.

* `rightLookup_iff` says for every VPD when the code is right.
-/

namespace Hostboot.Vpd

open Hostboot.Lib List

/-! ## The entries -/

/-- A record of this name is at the offset. -/
def IsRecord (vpd : Eeprom) (recordName : Bytes) (offset : UInt16) : Prop :=
  vpd.readable offset.toNat RECORD_ADDR_BYTE_SIZE = true ∧
  vpd.readable (nameOffset offset).toNat RECORD_BYTE_SIZE = true ∧
  vpd.image.read (nameOffset offset).toNat RECORD_BYTE_SIZE = recordName.take RECORD_BYTE_SIZE

instance (vpd : Eeprom) (recordName : Bytes) (offset : UInt16) :
    Decidable (IsRecord vpd recordName offset) :=
  inferInstanceAs (Decidable (_ ∧ _ ∧ _))

/-- The `PT` keywords of the table of contents. -/
def ptKeywords (vpd : Eeprom) (offset : UInt16) : List Keyword :=
  if IsRecord vpd VPD_TABLE_OF_CONTENTS_RECORD_NAME offset then
    named VPD_KEYWORD_POINTER_TO_RECORD (recordKeywords vpd offset)
  else []

/-- The places of the complete entries of a keyword. -/
def entriesOf (k : Keyword) : List Nat :=
  (List.range (k.size / PT_ENTRY_SIZE)).map fun i => k.data + PT_ENTRY_SIZE * i

/-- The entry at a place has the name of the record. -/
def NamesRecord (m : Mem) (record : Bytes) (p : Nat) : Prop :=
  m.bytesOf p PtEntry.recordName.field = record.take RECORD_BYTE_SIZE

instance (m : Mem) (record : Bytes) (p : Nat) : Decidable (NamesRecord m record p) :=
  inferInstanceAs (Decidable (_ = _))

/-- The first complete entry with the name, in the keywords that end in the record. -/
def firstEntry (vpd : Eeprom) (record : Bytes) (recordEnd : Nat) (keywords : List Keyword) :
    Option Nat :=
  ((keywords.filter fun k => k.data + k.size ≤ recordEnd).flatMap entriesOf).find? fun p =>
    NamesRecord vpd.image record p

/-- When the table of contents is located, the lookup ends with the meta data of the first
complete entry that has the name, or with an error when there is none, and it takes no
incomplete entry.  Otherwise it ends with an error. -/
def RightLookup (vpd : Eeprom) (stack : Mem) (record : Bytes) : Prop :=
  ∃ rounds located result,
    getVtocRecordMetaData rounds vpd stack = some located ∧
    findRecordMetaDataSeeprom rounds vpd stack record = some result ∧
    match located with
    | .error _ => ∃ err, result = .error err
    | .ok vtoc =>
      (match firstEntry vpd record (recordEndAt vpd (vtoc + 1)) (ptKeywords vpd (vtoc + 1)) with
        | some p => result = .ok (metaDataAt vpd.image p)
        | none => ∃ err, result = .error err) ∧
      ∃ looped, scanVtoc rounds vpd stack record vtoc = some looped ∧
        ∀ found, looped = .ok (some found) → found.vtocPtOffset + PT_ENTRY_SIZE ≤ found.ptLen

/-! ## When the lookup is right -/

/-- From a place the walk through the record at the offset, in 16 bits, comes to a `PT` keyword,
or without one to the end of the record or to a keyword that cannot be read. -/
inductive Meets (vpd : Eeprom) (offset : UInt16) : UInt16 → Option KeywordHeader → Prop
  | past {p : UInt16} (h : recordEndAt vpd offset ≤ p.toNat) : Meets vpd offset p none
  | unreadable {p : UInt16} {err : Errl} (hlt : p.toNat < recordEndAt vpd offset)
      (h : readKeyword vpd p = .error err) : Meets vpd offset p none
  | here {p : UInt16} {header : KeywordHeader} (hlt : p.toNat < recordEndAt vpd offset)
      (h : readKeyword vpd p = .ok header)
      (hname : header.keyword = VPD_KEYWORD_POINTER_TO_RECORD.take KEYWORD_BYTE_SIZE) :
      Meets vpd offset p (some header)
  | other {p : UInt16} {header : KeywordHeader} {met : Option KeywordHeader}
      (hlt : p.toNat < recordEndAt vpd offset) (h : readKeyword vpd p = .ok header)
      (hname : header.keyword ≠ VPD_KEYWORD_POINTER_TO_RECORD.take KEYWORD_BYTE_SIZE)
      (hrest : Meets vpd offset (header.offset + header.keywordSize) met) : Meets vpd offset p met

/-- The keyword with the place from which `retrieveKeyword` reads its data. -/
def KeywordHeader.within (header : KeywordHeader) (recordOffset : UInt16) : Keyword :=
  ⟨header.keyword, recordOffset.toNat + (header.offset - recordOffset).toNat,
    header.keywordSize.toNat⟩

/-- The buffer behind the keyword. -/
def load (vpd : Eeprom) (k : Keyword) (buffer : Mem) : Mem :=
  buffer.write 0 (vpd.image.read k.data k.size)

/-- No entry that starts in the keyword has the name of the record, in the buffer. -/
def Unnamed (vpd : Eeprom) (record : Bytes) (k : Keyword) (buffer : Mem) : Prop :=
  ∀ o ∈ vtocPtOffsets k.size, ¬NamesRecord (load vpd k buffer) record o

/-- The walk goes on at an offset behind the record, to its end or to what cannot be read.  At
most so many `PT` keywords are in front of that, and no entry in them has the name. -/
inductive EndsUnnamed (vpd : Eeprom) (record : Bytes) (offset : UInt16) :
    UInt16 → Mem → Nat → Prop
  | ends {p : UInt16} {buffer : Mem} {more : Nat} (h : Meets vpd offset p none) :
      EndsUnnamed vpd record offset p buffer more
  | unreadable {p : UInt16} {buffer : Mem} {more : Nat} {header : KeywordHeader}
      (h : Meets vpd offset p (some header))
      (hdata : vpd.readable (header.within offset).data (header.within offset).size ≠ true) :
      EndsUnnamed vpd record offset p buffer more
  | next {p : UInt16} {buffer : Mem} {more : Nat} {header : KeywordHeader}
      (h : Meets vpd offset p (some header))
      (hnone : Unnamed vpd record (header.within offset) buffer)
      (hrest : EndsUnnamed vpd record offset (header.offset + header.keywordSize)
        (load vpd (header.within offset) buffer) more) :
      EndsUnnamed vpd record offset p buffer (more + 1)

/-- Up to the keyword with the first complete entry of the name, the keywords of the record are
read, and no other entry that starts in one of them has the name.  Without a complete entry a
keyword that cannot be read ends the scan, or else what is behind the record has to. -/
def TakesComplete (vpd : Eeprom) (record : Bytes) (recordEnd : Nat) (ends : Mem → Prop) :
    List Keyword → Mem → Prop
  | [], buffer => ends buffer
  | k :: keywords, buffer =>
    if vpd.readable k.data k.size = true then
      (k.data + k.size ≤ recordEnd ∧ ∃ p ∈ entriesOf k, NamesRecord vpd.image record p) ∨
      Unnamed vpd record k buffer ∧
        TakesComplete vpd record recordEnd ends keywords (load vpd k buffer)
    else firstEntry vpd record recordEnd (k :: keywords) = none

/-- The condition on the VPD under which the lookup is right: the search for the table of
contents ends, and if there is one, only complete entries of it are taken. -/
def WellLocated (vpd : Eeprom) (stack : Mem) (record : Bytes) : Prop :=
  let header := UInt16.ofNat (VHDR_ECC_DATA_SIZE + RESOURCE_ID_SIZE)
  (IsRecord vpd VPD_HEADER_RECORD_NAME header →
    ∃ met, Meets vpd header (UInt16.ofNat (keywordsStart header)) met) ∧
  ∀ vtoc, (∃ rounds, getVtocRecordMetaData rounds vpd stack = some (.ok vtoc)) →
    IsRecord vpd VPD_TABLE_OF_CONTENTS_RECORD_NAME (vtoc + 1) →
      let offset := vtoc + 1
      let keywords := ptKeywords vpd offset
      let left := leftAt vpd (recordEndAt vpd offset) (keywordsStart offset)
      TakesComplete vpd record (recordEndAt vpd offset)
        (EndsUnnamed vpd record offset (UInt16.ofNat left) · (2 ^ 16 - 1 - keywords.length))
        keywords (stack.write 0 (Packed.zeros PT_BUFFER_SIZE))

/-! ## The scan of one keyword -/

/-- The entries that start in a keyword are the complete ones and at most one more. -/
theorem vtocPtOffsets_eq (n : Nat) :
    vtocPtOffsets n = (List.range (n / PT_ENTRY_SIZE)).map (PT_ENTRY_SIZE * ·)
      ++ if n % PT_ENTRY_SIZE = 0 then [] else [PT_ENTRY_SIZE * (n / PT_ENTRY_SIZE)] := by
  have hceil : (n + PT_ENTRY_SIZE - 1) / PT_ENTRY_SIZE
      = n / PT_ENTRY_SIZE + if n % PT_ENTRY_SIZE = 0 then 0 else 1 := by
    rw [show PT_ENTRY_SIZE = 14 from rfl]
    split <;> omega
  unfold vtocPtOffsets
  rw [hceil]
  split
  · rw [Nat.add_zero, append_nil]
  · rw [range_succ, map_append]
    rfl

theorem entry_fits {i n : Nat} (hi : i ∈ List.range (n / PT_ENTRY_SIZE)) :
    PT_ENTRY_SIZE * i + PT_ENTRY_SIZE ≤ n := by
  calc PT_ENTRY_SIZE * i + PT_ENTRY_SIZE
    _ = PT_ENTRY_SIZE * (i + 1) := (Nat.mul_succ _ _).symm
    _ ≤ PT_ENTRY_SIZE * (n / PT_ENTRY_SIZE) := Nat.mul_le_mul_left _ (mem_range.mp hi)
    _ ≤ n := Nat.mul_div_le _ _

theorem bytesOf_load {vpd : Eeprom} {k : Keyword} (buffer : Mem) {base : Nat} {f : Field}
    (h : base + f.offset + f.size ≤ k.size) :
    (load vpd k buffer).bytesOf base f = vpd.image.bytesOf (k.data + base) f := by
  have hwhole : (load vpd k buffer).bytesOf 0 ⟨base + f.offset, f.size⟩
      = vpd.image.bytesOf k.data ⟨base + f.offset, f.size⟩ := Mem.bytesOf_copyTo h
  unfold Mem.bytesOf at hwhole ⊢
  dsimp only at hwhole
  rw [Nat.zero_add] at hwhole
  rw [hwhole, Nat.add_assoc]

section

variable {vpd : Eeprom} {record : Bytes} {k : Keyword}

theorem metaDataAt_load (buffer : Mem) {base : Nat} (h : base + PT_ENTRY_SIZE ≤ k.size) :
    metaDataAt (load vpd k buffer) base = metaDataAt vpd.image (k.data + base) := by
  have hfield (f : PtEntry) :
      ptField (load vpd k buffer) base f = ptField vpd.image (k.data + base) f := by
    have hin : f.field.offset + f.field.size ≤ PT_ENTRY_SIZE := by cases f <;> decide
    unfold ptField
    rw [bytesOf_load buffer (by omega)]
  unfold metaDataAt
  rw [hfield, hfield, hfield, hfield]

theorem namesRecord_load (buffer : Mem) {base : Nat} (h : base + PT_ENTRY_SIZE ≤ k.size) :
    NamesRecord (load vpd k buffer) record base
      ↔ NamesRecord vpd.image record (k.data + base) := by
  have hin : PtEntry.recordName.field.offset + PtEntry.recordName.field.size ≤ PT_ENTRY_SIZE := by
    decide
  unfold NamesRecord
  rw [bytesOf_load buffer (by omega)]

theorem find?_complete (buffer : Mem) :
    (((List.range (k.size / PT_ENTRY_SIZE)).map (PT_ENTRY_SIZE * ·)).find? fun o =>
        NamesRecord (load vpd k buffer) record o).map (k.data + ·)
      = (entriesOf k).find? fun p => NamesRecord vpd.image record p := by
  have hcongr : (List.range (k.size / PT_ENTRY_SIZE)).find?
        ((fun o => decide (NamesRecord (load vpd k buffer) record o)) ∘ (PT_ENTRY_SIZE * ·))
      = (List.range (k.size / PT_ENTRY_SIZE)).find?
        ((fun p => decide (NamesRecord vpd.image record p)) ∘ fun i =>
          k.data + PT_ENTRY_SIZE * i) := by
    refine find?_congr fun i hi => ?_
    exact decide_eq_decide.mpr (namesRecord_load buffer (entry_fits hi))
  rw [entriesOf, find?_map, find?_map, hcongr, Option.map_map]
  rfl

/-- The scan of a buffer: the complete entries, and then the one that is not complete. -/
theorem scanBuffer_eq (record : Bytes) (buffer : Mem) (n : Nat) :
    scanBuffer record buffer n
      = ((((List.range (n / PT_ENTRY_SIZE)).map (PT_ENTRY_SIZE * ·)).find? fun o =>
            NamesRecord buffer record o).or
          ((if n % PT_ENTRY_SIZE = 0 then [] else [PT_ENTRY_SIZE * (n / PT_ENTRY_SIZE)]).find?
            fun o => NamesRecord buffer record o)).map (⟨buffer, n, ·⟩) := by
  rw [← find?_append, ← vtocPtOffsets_eq]
  rfl

theorem scanBuffer_of_some (buffer : Mem) {p : Nat}
    (h : ((entriesOf k).find? fun p => NamesRecord vpd.image record p) = some p) :
    ∃ o, scanBuffer record (load vpd k buffer) k.size = some ⟨load vpd k buffer, k.size, o⟩ ∧
      o + PT_ENTRY_SIZE ≤ k.size ∧ p = k.data + o := by
  rw [← find?_complete buffer, Option.map_eq_some_iff] at h
  obtain ⟨o, ho, rfl⟩ := h
  obtain ⟨i, hi, rfl⟩ := mem_map.mp (mem_of_find?_eq_some ho)
  refine ⟨PT_ENTRY_SIZE * i, ?_, entry_fits hi, rfl⟩
  rw [scanBuffer_eq, ho]
  rfl
end

/-! ## The walk -/

theorem length_keywordsFrom_le (vpd : Eeprom) (recordEnd p : Nat) :
    (keywordsFrom vpd recordEnd p).length ≤ 2 ^ 16 - p := by
  induction p using keywordsFrom.induct vpd recordEnd with
  | case1 p hlt hk =>
    rw [keywordsFrom_of_none hk]
    exact Nat.zero_le _
  | case2 p hlt k hk ih =>
    have hp := lt_data_of_keywordAt hk
    have hdata := (size_lt_of_keywordAt hk).2
    rw [keywordsFrom_of_some hlt hk, length_cons]
    omega
  | case3 p hlt =>
    rw [keywordsFrom_of_ge (Nat.not_lt.mp hlt)]
    exact Nat.zero_le _

theorem named_recordKeywords_PT (vpd : Eeprom) (offset : UInt16) :
    named VPD_KEYWORD_POINTER_TO_RECORD (recordKeywords vpd offset)
      = named VPD_KEYWORD_POINTER_TO_RECORD
          (keywordsFrom vpd (recordEndAt vpd offset) (keywordsStart offset)) := by
  have hname : KEYWORD_RECORD_TYPE ≠ VPD_KEYWORD_POINTER_TO_RECORD.take KEYWORD_BYTE_SIZE := by
    decide
  rw [recordKeywords, named, filter_cons_of_neg (by simpa using hname)]
  rfl

theorem length_named_lt (vpd : Eeprom) (keywordName : Bytes) (offset : UInt16) :
    (named keywordName
      (keywordsFrom vpd (recordEndAt vpd offset) (keywordsStart offset))).length < 2 ^ 16 := by
  have hfilter : (named keywordName (keywordsFrom vpd _ (keywordsStart offset))).length ≤ _ :=
    length_filter_le _ (keywordsFrom vpd (recordEndAt vpd offset) (keywordsStart offset))
  have hall := length_keywordsFrom_le vpd (recordEndAt vpd offset) (keywordsStart offset)
  have hstart : 0 < keywordsStart offset := Nat.lt_of_lt_of_le (by decide) (Nat.le_add_left _ _)
  omega

section

variable {vpd : Eeprom} {offset p : UInt16} {met : Option KeywordHeader}

theorem Meets.unique (h : Meets vpd offset p met) {met' : Option KeywordHeader}
    (h' : Meets vpd offset p met') : met' = met := by
  induction h with
  | past h =>
    cases h' with
    | past => rfl
    | unreadable => rfl
    | here hlt => exact absurd h (Nat.not_le.mpr hlt)
    | other hlt => exact absurd h (Nat.not_le.mpr hlt)
  | unreadable hlt h =>
    cases h' with
    | past => rfl
    | unreadable => rfl
    | here _ h' => exact absurd (h.symm.trans h') nofun
    | other _ h' => exact absurd (h.symm.trans h') nofun
  | here hlt h hname =>
    cases h' with
    | past h' => exact absurd h' (Nat.not_le.mpr hlt)
    | unreadable _ h' => exact absurd (h.symm.trans h') nofun
    | here _ h' => rw [Except.ok.inj (h.symm.trans h')]
    | other _ h' hname' => exact absurd hname (Except.ok.inj (h.symm.trans h') ▸ hname')
  | other hlt h hname _ ih =>
    cases h' with
    | past h' => exact absurd h' (Nat.not_le.mpr hlt)
    | unreadable _ h' => exact absurd (h.symm.trans h') nofun
    | here _ h' hname' => exact absurd hname' (Except.ok.inj (h.symm.trans h') ▸ hname)
    | other _ h' _ hrest =>
      obtain rfl := Except.ok.inj (h.symm.trans h')
      exact ih hrest

theorem meets_of_named {q : Nat} {k : Keyword} {keywords : List Keyword}
    (h : named VPD_KEYWORD_POINTER_TO_RECORD (keywordsFrom vpd (recordEndAt vpd offset) q)
      = k :: keywords) :
    Meets vpd offset (UInt16.ofNat q)
        (some ⟨k.name, UInt16.ofNat k.size, UInt16.ofNat k.data⟩) ∧
      named VPD_KEYWORD_POINTER_TO_RECORD
        (keywordsFrom vpd (recordEndAt vpd offset) (k.data + k.size)) = keywords ∧
      leftAt vpd (recordEndAt vpd offset) (k.data + k.size)
        = leftAt vpd (recordEndAt vpd offset) q := by
  induction q using keywordsFrom.induct vpd (recordEndAt vpd offset) with
  | case1 q hlt hk =>
    rw [keywordsFrom_of_none hk] at h
    cases h
  | case2 q hlt k' hk ih =>
    have hread := readKeyword_of_keywordAt hk
    have hat : (UInt16.ofNat q).toNat < recordEndAt vpd offset := by
      rwa [toNat_ofNat_of_keywordAt hk]
    rw [keywordsFrom_of_some hlt hk] at h
    by_cases hname : k'.name = VPD_KEYWORD_POINTER_TO_RECORD.take KEYWORD_BYTE_SIZE
    · rw [named, filter_cons_of_pos (by simpa using hname)] at h
      cases h
      exact ⟨.here hat hread hname, rfl, (leftAt_of_some hlt hk).symm⟩
    · rw [named, filter_cons_of_neg (by simpa using hname)] at h
      obtain ⟨hmeets, hrest, hleft⟩ := ih h
      rw [← next_of_keywordAt] at hmeets
      exact ⟨.other hat hread hname hmeets, hrest, hleft.trans (leftAt_of_some hlt hk).symm⟩
  | case3 q hlt =>
    rw [keywordsFrom_of_ge (Nat.not_lt.mp hlt)] at h
    cases h

/-- The loop of `findKeywordAddr` for a `PT` keyword. -/
abbrev ptLoop (vpd : Eeprom) (offset index : UInt16) :
    UInt16 × Nat → Except Errl (Option Found) ⊕ UInt16 × Nat :=
  keywordLoop vpd VPD_KEYWORD_POINTER_TO_RECORD offset index (recordEndAt vpd offset)

theorem Meets.exists_place : Meets vpd offset p met →
    ∃ q : UInt16,
      (∀ index m result,
        Loop.Returns (ptLoop vpd offset index) (p, m) result
          ↔ Loop.Returns (ptLoop vpd offset index) (q, m) result) ∧
      match met with
      | none => recordEndAt vpd offset ≤ q.toNat ∨
          q.toNat < recordEndAt vpd offset ∧ ∃ err, readKeyword vpd q = .error err
      | some header => q.toNat < recordEndAt vpd offset ∧ readKeyword vpd q = .ok header ∧
          header.keyword = VPD_KEYWORD_POINTER_TO_RECORD.take KEYWORD_BYTE_SIZE := by
  intro h
  induction h with
  | @past p h => exact ⟨p, fun _ _ _ => Iff.rfl, Or.inl h⟩
  | @unreadable p err hlt h => exact ⟨p, fun _ _ _ => Iff.rfl, Or.inr ⟨hlt, err, h⟩⟩
  | @here p header hlt h hname => exact ⟨p, fun _ _ _ => Iff.rfl, hlt, h, hname⟩
  | other hlt h hname _ ih =>
    obtain ⟨q, hpass, hplace⟩ := ih
    refine ⟨q, fun index m result => ?_, hplace⟩
    rw [Loop.returns_of_next (keywordLoop_other hlt h hname), hpass]

theorem Meets.returns_none (h : Meets vpd offset p none) (index : UInt16) (m : Nat) :
    ∃ result, Loop.Returns (ptLoop vpd offset index) (p, m) result ∧
      ∀ found, result ≠ .ok (some found) := by
  obtain ⟨q, hpass, hpast | ⟨hlt, err, hread⟩⟩ := h.exists_place
  · exact ⟨.ok none, (hpass _ _ _).mpr ((Loop.returns_of_done (keywordLoop_past hpast)).mpr rfl),
      nofun⟩
  · exact ⟨.error err,
      (hpass _ _ _).mpr ((Loop.returns_of_done (keywordLoop_error hlt hread)).mpr rfl), nofun⟩

section

variable {header : KeywordHeader} (h : Meets vpd offset p (some header))
include h

theorem Meets.returns_some {index : UInt16} {m : Nat} (hm : m = index.toNat) :
    Loop.Returns (ptLoop vpd offset index) (p, m)
      (.ok (some ⟨header.keywordSize, header.offset - offset⟩)) := by
  obtain ⟨q, hpass, hlt, hread, hname⟩ := h.exists_place
  exact (hpass _ _ _).mpr ((Loop.returns_of_done (keywordLoop_found hlt hread hname hm)).mpr rfl)

theorem Meets.returns_behind {index : UInt16} {m : Nat} (hm : m < index.toNat)
    (result : Except Errl (Option Found)) :
    Loop.Returns (ptLoop vpd offset index) (p, m) result
      ↔ Loop.Returns (ptLoop vpd offset index)
          (header.offset + header.keywordSize, m + 1) result := by
  obtain ⟨q, hpass, hlt, hread, hname⟩ := h.exists_place
  rw [hpass, Loop.returns_of_next (keywordLoop_again hlt hread hname (Nat.ne_of_lt hm))]

end

theorem keywordSize_lt {q : UInt16} {header : KeywordHeader} (h : readKeyword vpd q = .ok header)
    (hname : header.keyword.head? ≠ some POUND) : header.keywordSize.toNat < PT_BUFFER_SIZE := by
  unfold readKeyword fetchData at h
  split at h
  swap
  · cases h
  rename_i hkeyword
  dsimp only [bind, Except.bind] at h
  split at h
  · cases h
  · rename_i keywordSize hsize
    cases h
    rw [if_neg hname] at hsize
    split at hsize
    · cases hsize
      have hlt : leToNat (vpd.image.read (q + UInt16.ofNat KEYWORD_BYTE_SIZE).toNat
          KEYWORD_SIZE_BYTE_SIZE) < 256 :=
        Wire.decode_lt (show (Mem.read _ _ 1).reverse.length = 1 from by simp)
      dsimp only
      rwa [UInt16.toNat_ofNat_of_lt' (Nat.lt_trans hlt (by decide))]
    · cases hsize

theorem exists_meets {index : UInt16} {m : Nat} {result : Except Errl (Option Found)}
    (h : Loop.Returns (ptLoop vpd offset index) (p, m) result) :
    ∃ met, Meets vpd offset p met := by
  obtain ⟨rounds, hrun⟩ := h
  induction rounds generalizing p with
  | zero => cases hrun
  | succ rounds ih =>
    by_cases hlt : p.toNat < recordEndAt vpd offset
    swap
    · exact ⟨none, .past (Nat.not_lt.mp hlt)⟩
    cases hread : readKeyword vpd p with
    | error err => exact ⟨none, .unreadable hlt hread⟩
    | ok header =>
      by_cases hname : header.keyword = VPD_KEYWORD_POINTER_TO_RECORD.take KEYWORD_BYTE_SIZE
      · exact ⟨some header, .here hlt hread hname⟩
      · rw [Loop.run, ptLoop, keywordLoop_other hlt hread hname] at hrun
        obtain ⟨met, hmeets⟩ := ih hrun
        exact ⟨met, .other hlt hread hname hmeets⟩

end

/-! ## The reads -/

section

variable {vpd : Eeprom} {recordName : Bytes} {offset : UInt16}

/-- What `retrieveKeyword` makes of the end of the loop. -/
def retrieved (vpd : Eeprom) (offset index : UInt16) (buffer : Mem) (buflen : Nat)
    (result : Except Errl (Option Found)) : Except Errl (Option Mem × Nat) := do
  let found ← afterLoop offset index result
  checkBufferSize buflen found.keywordSize.toNat
  let data ← fetchData vpd (offset.toNat + found.keywordOffset.toNat) found.keywordSize.toNat
  return (some (buffer.write 0 data), found.keywordSize.toNat)

theorem not_isRT_PT : ¬IsRT VPD_KEYWORD_POINTER_TO_RECORD := by decide

theorem retrieveKeyword_of_isRecord (hrecord : IsRecord vpd recordName offset) (rounds : Nat)
    (index : UInt16) (buffer : Mem) (buflen : Nat) :
    retrieveKeyword rounds vpd VPD_KEYWORD_POINTER_TO_RECORD recordName offset index (some buffer)
        buflen
      = (Loop.run (ptLoop vpd offset index) rounds (UInt16.ofNat (keywordsStart offset), 0)).map
          (retrieved vpd offset index buffer buflen) := by
  obtain ⟨hsize, hname, hrecord⟩ := hrecord
  unfold retrieveKeyword
  rw [findKeywordAddr_of_match hsize hname (fun h => not_isRT_PT h.1) rounds hrecord,
    nameOffset_add, Option.map_map]
  rfl

theorem retrieveKeyword_of_not_isRecord (hrecord : ¬IsRecord vpd recordName offset) (rounds : Nat)
    (index : UInt16) (buffer : Mem) (buflen : Nat) :
    ∃ err, retrieveKeyword rounds vpd VPD_KEYWORD_POINTER_TO_RECORD recordName offset index
      (some buffer) buflen = some (.error err) := by
  obtain ⟨err, herr⟩ : ∃ err, findKeywordAddr rounds vpd VPD_KEYWORD_POINTER_TO_RECORD recordName
      offset index = some (.error err) := by
    by_cases hsize : vpd.readable offset.toNat RECORD_ADDR_BYTE_SIZE = true
    swap
    · exact findKeywordAddr_of_not_size rounds hsize
    by_cases hname : vpd.readable (nameOffset offset).toNat RECORD_BYTE_SIZE = true
    swap
    · exact findKeywordAddr_of_not_name hsize rounds hname
    exact findKeywordAddr_of_mismatch hsize hname (fun h => not_isRT_PT h.1) rounds
      fun h => hrecord ⟨hsize, hname, h⟩
  refine ⟨err, ?_⟩
  unfold retrieveKeyword
  rw [herr]
  rfl

theorem retrieveKeyword_of_le {m n : Nat} (hle : m ≤ n) {keywordName : Bytes}
    {index : UInt16} {buffer : Option Mem} {buflen : Nat}
    {result : Except Errl (Option Mem × Nat)}
    (h : retrieveKeyword m vpd keywordName recordName offset index buffer buflen = some result) :
    retrieveKeyword n vpd keywordName recordName offset index buffer buflen = some result := by
  unfold retrieveKeyword at h ⊢
  obtain ⟨found, hfound, rfl⟩ := Option.map_eq_some_iff.mp h
  rw [findKeywordAddr_of_le hle hfound, Option.map_some]

variable (vpd offset)

/-- What the loop reads with an index. -/
def Reads (index : UInt16) (buffer : Mem) (read : Except Errl (Option Mem × Nat)) : Prop :=
  ∃ rounds, retrieveKeyword rounds vpd VPD_KEYWORD_POINTER_TO_RECORD
    VPD_TABLE_OF_CONTENTS_RECORD_NAME offset index (some buffer) PT_BUFFER_SIZE = some read

/-- The loop reads the keyword, whatever is in the buffer. -/
def Loads (index : UInt16) (k : Keyword) : Prop :=
  ∀ buffer, Reads vpd offset index buffer (.ok (some (load vpd k buffer), k.size))

/-- With so many matches the walk through the keywords is at the offset. -/
def At (i : Nat) (p : UInt16) : Prop :=
  ∀ index : UInt16, i ≤ index.toNat → ∀ result,
    Loop.Returns (ptLoop vpd offset index) (UInt16.ofNat (keywordsStart offset), 0) result
      ↔ Loop.Returns (ptLoop vpd offset index) (p, i) result

variable {vpd offset}

theorem Reads.unique {index : UInt16} {buffer : Mem} {read read' : Except Errl (Option Mem × Nat)}
    (h : Reads vpd offset index buffer read) (h' : Reads vpd offset index buffer read') :
    read = read' := by
  obtain ⟨m, hm⟩ := h
  obtain ⟨n, hn⟩ := h'
  have hm := retrieveKeyword_of_le (Nat.le_max_left m n) hm
  rw [retrieveKeyword_of_le (Nat.le_max_right m n) hn] at hm
  exact (Option.some.inj hm).symm

theorem At.next {i : Nat} {p : UInt16} {header : KeywordHeader} (hat : At vpd offset i p)
    (h : Meets vpd offset p (some header)) :
    At vpd offset (i + 1) (header.offset + header.keywordSize) := fun index hi result =>
  (hat index (by omega) result).trans (h.returns_behind hi result)

section

variable (hrecord : IsRecord vpd VPD_TABLE_OF_CONTENTS_RECORD_NAME offset)
include hrecord

theorem reads_iff {index : UInt16} {buffer : Mem} {read : Except Errl (Option Mem × Nat)} :
    Reads vpd offset index buffer read ↔
      ∃ result,
        Loop.Returns (ptLoop vpd offset index) (UInt16.ofNat (keywordsStart offset), 0) result ∧
        retrieved vpd offset index buffer PT_BUFFER_SIZE result = read := by
  unfold Reads
  simp only [retrieveKeyword_of_isRecord hrecord, Option.map_eq_some_iff]
  constructor
  · rintro ⟨rounds, result, hrun, hread⟩
    exact ⟨result, ⟨rounds, hrun⟩, hread⟩
  · rintro ⟨result, ⟨rounds, hrun⟩, hread⟩
    exact ⟨rounds, result, hrun, hread⟩

variable {i : Nat} {p : UInt16} (hat : At vpd offset i p) (hi : i < 2 ^ 16)
include hat hi

theorem At.exists_meets {buffer : Mem} {read : Except Errl (Option Mem × Nat)}
    (h : Reads vpd offset (UInt16.ofNat i) buffer read) :
    ∃ met, Meets vpd offset p met := by
  have hindex : (UInt16.ofNat i).toNat = i := UInt16.toNat_ofNat_of_lt' hi
  obtain ⟨result, hreturns, -⟩ := (reads_iff hrecord).mp h
  exact Vpd.exists_meets ((hat _ (Nat.le_of_eq hindex.symm) result).mp hreturns)

theorem At.reads_error
    (h : Meets vpd offset p none) (buffer : Mem) :
    ∃ err, Reads vpd offset (UInt16.ofNat i) buffer (.error err) := by
  have hindex : (UInt16.ofNat i).toNat = i := UInt16.toNat_ofNat_of_lt' hi
  obtain ⟨result, hreturns, hlost⟩ := h.returns_none (UInt16.ofNat i) i
  have hreturns := (hat _ (Nat.le_of_eq hindex.symm) result).mpr hreturns
  rcases result with err | _ | found
  · exact ⟨err, (reads_iff hrecord).mpr ⟨_, hreturns, rfl⟩⟩
  · exact ⟨_, (reads_iff hrecord).mpr ⟨_, hreturns, rfl⟩⟩
  · exact absurd rfl (hlost found)

variable {header : KeywordHeader}
  (h : Meets vpd offset p (some header))
include h

theorem At.reads_some (buffer : Mem) :
    Reads vpd offset (UInt16.ofNat i) buffer
      ((fetchData vpd (header.within offset).data (header.within offset).size).map fun data =>
        (some (buffer.write 0 data), (header.within offset).size)) := by
  have hindex : (UInt16.ofNat i).toNat = i := UInt16.toNat_ofNat_of_lt' hi
  have hreturns := (hat _ (Nat.le_of_eq hindex.symm) _).mpr
    (h.returns_some hindex.symm)
  refine (reads_iff hrecord).mpr ⟨_, hreturns, ?_⟩
  obtain ⟨q, -, -, hread, hname⟩ := h.exists_place
  have hsize := keywordSize_lt hread (by rw [hname]; decide)
  unfold retrieved
  rw [afterLoop_eq_ok.mpr rfl]
  change (checkBufferSize PT_BUFFER_SIZE header.keywordSize.toNat >>= _) = _
  rw [checkBufferSize, if_pos (Nat.le_of_lt hsize)]
  change (fetchData vpd (header.within offset).data (header.within offset).size >>= _) = _
  cases fetchData vpd (header.within offset).data (header.within offset).size with
  | error err => rfl
  | ok data => rfl

theorem At.loads
    (hdata : vpd.readable (header.within offset).data (header.within offset).size = true) :
    Loads vpd offset (UInt16.ofNat i) (header.within offset) := by
  intro buffer
  have hreads := At.reads_some hrecord hat hi h buffer
  rw [fetchData, if_pos hdata] at hreads
  exact hreads

theorem At.reads_unreadable
    (hdata : vpd.readable (header.within offset).data (header.within offset).size ≠ true)
    (buffer : Mem) : ∃ err, Reads vpd offset (UInt16.ofNat i) buffer (.error err) := by
  have hreads := At.reads_some hrecord hat hi h buffer
  rw [fetchData, if_neg hdata] at hreads
  exact ⟨_, hreads⟩

end

end

/-! ## The scan of all keywords -/

section

variable {vpd : Eeprom} {record : Bytes} {offset : UInt16}

theorem scanKeywords_of_le {m n : Nat} (hle : m ≤ n) {more more' : Nat} (hmore : more ≤ more')
    {index : UInt16} {buffer : Mem} {result : Except Errl (Option PtMatch)}
    (h : scanKeywords m vpd record offset more index buffer = some result) :
    scanKeywords n vpd record offset more' index buffer = some result := by
  induction more generalizing more' index buffer with
  | zero => cases h
  | succ more ih =>
    obtain ⟨more', rfl⟩ : ∃ k, more' = k + 1 := ⟨more' - 1, by omega⟩
    rw [scanKeywords] at h ⊢
    cases hread : retrieveKeyword m vpd VPD_KEYWORD_POINTER_TO_RECORD
        VPD_TABLE_OF_CONTENTS_RECORD_NAME offset index (some buffer) PT_BUFFER_SIZE with
    | none =>
      rw [hread] at h
      cases h
    | some read =>
      rw [hread] at h
      rw [retrieveKeyword_of_le hle hread]
      rcases read with err | ⟨filled, ptLen⟩
      · exact h
      · dsimp only at h ⊢
        cases hscan : scanBuffer record (filled.getD buffer) ptLen with
        | some found =>
          rw [hscan] at h
          exact h
        | none =>
          rw [hscan] at h
          exact ih (by omega) h

variable (vpd record offset)

/-- The loop ends with this from an index on. -/
def Scans (index : UInt16) (buffer : Mem) (looped : Except Errl (Option PtMatch)) : Prop :=
  ∃ rounds more, scanKeywords rounds vpd record offset more index buffer = some looped

variable {vpd record offset}

section

variable {index : UInt16} {buffer : Mem} {looped : Except Errl (Option PtMatch)}

theorem scans_iff {read : Except Errl (Option Mem × Nat)} (h : Reads vpd offset index buffer read) :
    Scans vpd record offset index buffer looped ↔
      match read with
      | .error err => looped = if index ≠ 0 then .ok none else .error err
      | .ok (filled, ptLen) =>
        match scanBuffer record (filled.getD buffer) ptLen with
        | some found => looped = .ok (some found)
        | none => Scans vpd record offset (index + 1) (filled.getD buffer) looped := by
  obtain ⟨rounds', hread'⟩ := h
  constructor
  · rintro ⟨rounds, more, hscan⟩
    cases more with
    | zero => cases hscan
    | succ more =>
      have hscan := scanKeywords_of_le (Nat.le_max_left rounds rounds') (Nat.le_refl _) hscan
      rw [scanKeywords, retrieveKeyword_of_le (Nat.le_max_right rounds rounds') hread'] at hscan
      rcases read with err | ⟨filled, ptLen⟩
      · dsimp only at hscan ⊢
        split at hscan
        · rename_i hindex
          rw [if_pos hindex, Option.some.inj hscan]
        · rename_i hindex
          rw [if_neg hindex, Option.some.inj hscan]
      · dsimp only at hscan ⊢
        cases hbuffer : scanBuffer record (filled.getD buffer) ptLen with
        | some found =>
          rw [hbuffer] at hscan
          exact (Option.some.inj hscan).symm
        | none =>
          rw [hbuffer] at hscan
          exact ⟨_, more, hscan⟩
  · intro h
    rcases read with err | ⟨filled, ptLen⟩
    · refine ⟨rounds', 1, ?_⟩
      rw [scanKeywords, hread', h]
      dsimp only
      split <;> rfl
    · dsimp only at h
      cases hbuffer : scanBuffer record (filled.getD buffer) ptLen with
      | some found =>
        rw [hbuffer] at h
        refine ⟨rounds', 1, ?_⟩
        rw [scanKeywords, hread', h]
        dsimp only
        rw [hbuffer]
      | none =>
        rw [hbuffer] at h
        obtain ⟨rounds, more, hscan⟩ := h
        refine ⟨max rounds rounds', more + 1, ?_⟩
        rw [scanKeywords, retrieveKeyword_of_le (Nat.le_max_right rounds rounds') hread']
        dsimp only
        rw [hbuffer]
        exact scanKeywords_of_le (Nat.le_max_left rounds rounds') (Nat.le_refl _) hscan

theorem retrieveKeyword_of_scanKeywords {rounds more : Nat}
    (hscan : scanKeywords rounds vpd record offset (more + 1) index buffer = some looped) :
    ∃ read, retrieveKeyword rounds vpd VPD_KEYWORD_POINTER_TO_RECORD
      VPD_TABLE_OF_CONTENTS_RECORD_NAME offset index (some buffer) PT_BUFFER_SIZE = some read := by
  refine Option.ne_none_iff_exists'.mp fun hread => ?_
  rw [scanKeywords, hread] at hscan
  cases hscan

theorem Scans.exists_reads (h : Scans vpd record offset index buffer looped) :
    ∃ read, Reads vpd offset index buffer read := by
  obtain ⟨rounds, more, hscan⟩ := h
  cases more with
  | zero => cases hscan
  | succ more =>
    obtain ⟨read, hread⟩ := retrieveKeyword_of_scanKeywords hscan
    exact ⟨read, rounds, hread⟩

/-- The index has 16 bits, so the loop does not end while every index is read. -/
theorem exists_found (hloads : ∀ index, ∃ k, Loads vpd offset index k)
    (h : Scans vpd record offset index buffer looped) : ∃ found, looped = .ok (some found) := by
  obtain ⟨rounds, more, hscan⟩ := h
  induction more generalizing index buffer with
  | zero => cases hscan
  | succ more ih =>
    obtain ⟨k, hk⟩ := hloads index
    obtain ⟨read, hread⟩ := retrieveKeyword_of_scanKeywords hscan
    obtain rfl := Reads.unique ⟨rounds, hread⟩ (hk buffer)
    rw [scanKeywords, hread] at hscan
    dsimp only [Option.getD_some] at hscan
    cases hbuffer : scanBuffer record (load vpd k buffer) k.size with
    | some found =>
      rw [hbuffer] at hscan
      exact ⟨found, (Option.some.inj hscan).symm⟩
    | none =>
      rw [hbuffer] at hscan
      exact ih hscan

theorem scanBuffer_eq_none {k : Keyword} :
    scanBuffer record (load vpd k buffer) k.size = none ↔ Unnamed vpd record k buffer := by
  rw [scanBuffer, Option.map_eq_none_iff, find?_eq_none, Unnamed]
  simp only [decide_eq_true_eq]
  rfl

theorem scans_error {err : Errl} (h : Reads vpd offset index buffer (.error err))
    (hscans : Scans vpd record offset index buffer looped) (found : PtMatch) :
    looped ≠ .ok (some found) := by
  rw [(scans_iff h).mp hscans]
  split <;> nofun

theorem exists_scans_error {err : Errl} (h : Reads vpd offset index buffer (.error err)) :
    ∃ looped, Scans vpd record offset index buffer looped :=
  ⟨_, (scans_iff h).mpr rfl⟩

end

theorem Loads.below_succ {i : Nat} {k : Keyword} (h : Loads vpd offset (UInt16.ofNat i) k)
    (hloads : ∀ j < i, ∃ k, Loads vpd offset (UInt16.ofNat j) k) :
    ∀ j < i + 1, ∃ k, Loads vpd offset (UInt16.ofNat j) k := by
  intro j hj
  rcases Nat.lt_succ_iff_lt_or_eq.mp hj with hlt | rfl
  · exact hloads j hlt
  · exact ⟨k, h⟩

/-! ### Behind the record -/

section

variable {p : UInt16} {buffer : Mem} {header : KeywordHeader}

theorem endsUnnamed_iff {more : Nat}
    (h : Meets vpd offset p (some header))
    (hdata : vpd.readable (header.within offset).data (header.within offset).size = true) :
    EndsUnnamed vpd record offset p buffer more ↔
      Unnamed vpd record (header.within offset) buffer ∧ ∃ more', more = more' + 1 ∧
        EndsUnnamed vpd record offset (header.offset + header.keywordSize)
          (load vpd (header.within offset) buffer) more' := by
  constructor
  · intro hends
    cases hends with
    | ends h' => exact absurd (h.unique h') nofun
    | unreadable h' hdata' =>
      cases h.unique h'
      exact absurd hdata hdata'
    | next h' hnone hrest =>
      cases h.unique h'
      exact ⟨hnone, _, rfl, hrest⟩
  · rintro ⟨hnone, more', rfl, hrest⟩
    exact .next h hnone hrest

theorem scans_behind_round (hrecord : IsRecord vpd VPD_TABLE_OF_CONTENTS_RECORD_NAME offset)
    {i more : Nat} (hi : i < 2 ^ 16) (hat : At vpd offset i p)
    (hrest : ∀ header,
      Meets vpd offset p (some header) →
      Loads vpd offset (UInt16.ofNat i) (header.within offset) →
      ((∃ looped, Scans vpd record offset (UInt16.ofNat i + 1)
            (load vpd (header.within offset) buffer) looped ∧ ∀ found, looped ≠ .ok (some found))
        ↔ ∃ more', more = more' + 1 ∧
          EndsUnnamed vpd record offset (header.offset + header.keywordSize)
            (load vpd (header.within offset) buffer) more')) :
    (∃ looped, Scans vpd record offset (UInt16.ofNat i) buffer looped ∧
        ∀ found, looped ≠ .ok (some found))
      ↔ EndsUnnamed vpd record offset p buffer more := by
  have hfails {err : Errl} (hreads : Reads vpd offset (UInt16.ofNat i) buffer (.error err)) :
      ∃ looped, Scans vpd record offset (UInt16.ofNat i) buffer looped ∧
        ∀ found, looped ≠ .ok (some found) := by
    obtain ⟨looped, hscans⟩ := exists_scans_error hreads
    exact ⟨looped, hscans, scans_error hreads hscans⟩
  by_cases hmeets : ∃ met,
      Meets vpd offset p met
  swap
  · refine iff_of_false ?_ ?_
    · rintro ⟨looped, hscans, -⟩
      obtain ⟨read, hreads⟩ := hscans.exists_reads
      exact hmeets (At.exists_meets hrecord hat hi hreads)
    · intro hends
      cases hends with
      | ends h => exact hmeets ⟨_, h⟩
      | unreadable h => exact hmeets ⟨_, h⟩
      | next h => exact hmeets ⟨_, h⟩
  obtain ⟨_ | header, hmeets⟩ := hmeets
  · obtain ⟨err, hreads⟩ := At.reads_error hrecord hat hi hmeets buffer
    exact iff_of_true (hfails hreads) (.ends hmeets)
  by_cases hdata : vpd.readable (header.within offset).data (header.within offset).size = true
  swap
  · obtain ⟨err, hreads⟩ := At.reads_unreadable hrecord hat hi hmeets hdata buffer
    exact iff_of_true (hfails hreads) (.unreadable hmeets hdata)
  have hloads := At.loads hrecord hat hi hmeets hdata
  rw [endsUnnamed_iff hmeets hdata, ← hrest header hmeets hloads, ← scanBuffer_eq_none]
  simp only [scans_iff (hloads buffer), Option.getD_some]
  cases hbuffer : scanBuffer record (load vpd (header.within offset) buffer)
      (header.within offset).size with
  | some found =>
    refine iff_of_false ?_ (fun h => nomatch h.1)
    rintro ⟨looped, hfound, hlost⟩
    exact hlost found hfound
  | none => exact (and_iff_right rfl).symm

theorem scans_behind_iff (hrecord : IsRecord vpd VPD_TABLE_OF_CONTENTS_RECORD_NAME offset)
    {i more : Nat} (hi : i + more = 2 ^ 16 - 1) (hat : At vpd offset i p)
    (hloads : ∀ j < i, ∃ k, Loads vpd offset (UInt16.ofNat j) k) :
    (∃ looped, Scans vpd record offset (UInt16.ofNat i) buffer looped ∧
        ∀ found, looped ≠ .ok (some found))
      ↔ EndsUnnamed vpd record offset p buffer more := by
  induction more generalizing i p buffer with
  | zero =>
    refine scans_behind_round hrecord (by omega) hat fun header hmeets hload => ?_
    refine iff_of_false ?_ (fun ⟨_, h, _⟩ => nomatch h)
    -- The index is the last one, and all of them are read.
    rintro ⟨looped, hscans, hlost⟩
    have hall (index : UInt16) : ∃ k, Loads vpd offset index k := by
      have hindex := index.toNat_lt
      rcases Nat.lt_or_eq_of_le (show index.toNat ≤ i by omega) with hlt | rfl
      · have hj := hloads _ hlt
        rwa [UInt16.ofNat_toNat] at hj
      · rw [UInt16.ofNat_toNat] at hload
        exact ⟨_, hload⟩
    obtain ⟨found, hfound⟩ := exists_found hall hscans
    exact hlost found hfound
  | succ more ih =>
    refine scans_behind_round hrecord (by omega) hat fun header hmeets hload => ?_
    have hindex : UInt16.ofNat i + 1 = UInt16.ofNat (i + 1) := (UInt16.ofNat_add i 1).symm
    rw [hindex, ih (by omega) (hat.next hmeets) (hload.below_succ hloads)]
    constructor
    · intro hends
      exact ⟨more, rfl, hends⟩
    · rintro ⟨more', hmore, hends⟩
      cases hmore
      exact hends

end

end

/-! ## The keywords of the record -/

theorem mem_entriesOf {k : Keyword} {p : Nat} :
    p ∈ entriesOf k ↔
      ∃ o ∈ vtocPtOffsets k.size, o + PT_ENTRY_SIZE ≤ k.size ∧ p = k.data + o := by
  have hsize : PT_ENTRY_SIZE = 14 := rfl
  simp only [entriesOf, vtocPtOffsets, mem_map, mem_range, hsize]
  constructor
  · rintro ⟨i, hi, rfl⟩
    exact ⟨_, ⟨i, by omega, rfl⟩, by omega, rfl⟩
  · rintro ⟨_, ⟨i, -, rfl⟩, hin, rfl⟩
    exact ⟨i, by omega, rfl⟩

/-- What the lookup makes of the end of its loop. -/
def ofLooped (looped : Except Errl (Option PtMatch)) : Except Errl RecordMetaData := do
  match ← looped with
  | some found => return metaDataAt found.buffer found.vtocPtOffset
  | none => .error .VPD_RECORD_NOT_FOUND

/-- The end of the loop is right for a first complete entry. -/
def Verdict (vpd : Eeprom) (first : Option Nat) (looped : Except Errl (Option PtMatch)) : Prop :=
  (match first with
    | some p => ofLooped looped = .ok (metaDataAt vpd.image p)
    | none => ∃ err, ofLooped looped = .error err) ∧
  ∀ found, looped = .ok (some found) → found.vtocPtOffset + PT_ENTRY_SIZE ≤ found.ptLen

section

variable {vpd : Eeprom} {first : Option Nat}

theorem verdict_of_lost {looped : Except Errl (Option PtMatch)}
    (hlost : ∀ found, looped ≠ .ok (some found)) : Verdict vpd first looped ↔ first = none := by
  obtain ⟨err, herr⟩ : ∃ err, ofLooped looped = .error err := by
    rcases looped with err | _ | found
    · exact ⟨err, rfl⟩
    · exact ⟨_, rfl⟩
    · exact absurd rfl (hlost found)
  unfold Verdict
  rw [herr]
  cases first with
  | none => exact iff_of_true ⟨⟨err, rfl⟩, fun found h => absurd h (hlost found)⟩ rfl
  | some p => exact iff_of_false (fun h => nomatch h.1) nofun

theorem verdict_of_found {found : PtMatch} : Verdict vpd first (.ok (some found)) ↔
    found.vtocPtOffset + PT_ENTRY_SIZE ≤ found.ptLen ∧
      ∃ p, first = some p ∧
        metaDataAt found.buffer found.vtocPtOffset = metaDataAt vpd.image p := by
  have hok : ofLooped (.ok (some found)) = .ok (metaDataAt found.buffer found.vtocPtOffset) := rfl
  unfold Verdict
  rw [hok]
  cases first with
  | none => exact iff_of_false (fun ⟨⟨_, h⟩, _⟩ => nomatch h) (fun ⟨_, _, h, _⟩ => nomatch h)
  | some p =>
    constructor
    · rintro ⟨hdata, hin⟩
      exact ⟨hin found rfl, p, rfl, Except.ok.inj hdata⟩
    · rintro ⟨hin, p', hp, hdata⟩
      cases hp
      refine ⟨congrArg Except.ok hdata, fun found' h => ?_⟩
      cases h
      exact hin

theorem verdict_none {looped : Except Errl (Option PtMatch)} :
    Verdict vpd none looped ↔ ∀ found, looped ≠ .ok (some found) := by
  constructor
  · rintro h found rfl
    obtain ⟨-, p, hp, -⟩ := verdict_of_found.mp h
    cases hp
  · exact fun h => (verdict_of_lost h).mpr rfl

end

section

variable {vpd : Eeprom} {record : Bytes} {recordEnd : Nat} {k : Keyword} {keywords : List Keyword}

theorem firstEntry_of_inside (h : k.data + k.size ≤ recordEnd) :
    firstEntry vpd record recordEnd (k :: keywords)
      = ((entriesOf k).find? fun p => NamesRecord vpd.image record p).or
          (firstEntry vpd record recordEnd keywords) := by
  rw [firstEntry, filter_cons_of_pos (by simpa using h), flatMap_cons,
    find?_append]
  rfl

theorem firstEntry_of_outside (h : ¬k.data + k.size ≤ recordEnd) :
    firstEntry vpd record recordEnd (k :: keywords) = firstEntry vpd record recordEnd keywords := by
  rw [firstEntry, filter_cons_of_neg (by simpa using h)]
  rfl

/-- A match in the buffer is right exactly when it is of a complete entry. -/
theorem verdict_scanBuffer_iff {buffer : Mem} {found : PtMatch}
    (hscan : scanBuffer record (load vpd k buffer) k.size = some found)
    (hlast : ¬k.data + k.size ≤ recordEnd → keywords = []) :
    Verdict vpd (firstEntry vpd record recordEnd (k :: keywords)) (.ok (some found)) ↔
      k.data + k.size ≤ recordEnd ∧ ∃ p ∈ entriesOf k, NamesRecord vpd.image record p := by
  rw [verdict_of_found]
  by_cases hinside : k.data + k.size ≤ recordEnd
  swap
  · refine iff_of_false ?_ (fun h => hinside h.1)
    rw [firstEntry_of_outside hinside, hlast hinside]
    rintro ⟨-, p, hp, -⟩
    cases hp
  rw [firstEntry_of_inside hinside, and_iff_right hinside]
  cases hfind : (entriesOf k).find? fun p => decide (NamesRecord vpd.image record p) with
  | some p =>
    obtain ⟨o, hscan', hin, rfl⟩ := scanBuffer_of_some buffer hfind
    rw [hscan'] at hscan
    cases hscan
    have hnames := find?_some hfind
    exact iff_of_true ⟨hin, _, rfl, metaDataAt_load buffer hin⟩
      ⟨_, mem_of_find?_eq_some hfind, of_decide_eq_true hnames⟩
  | none =>
    have hnone (p : Nat) (hp : p ∈ entriesOf k) : ¬NamesRecord vpd.image record p := by
      simpa using find?_eq_none.mp hfind p hp
    refine iff_of_false ?_ (fun ⟨p, hp, hnames⟩ => hnone p hp hnames)
    rintro ⟨hin, -⟩
    obtain ⟨o, ho, rfl⟩ := Option.map_eq_some_iff.mp hscan
    have hnames : NamesRecord (load vpd k buffer) record o :=
      of_decide_eq_true (find?_eq_some_iff_append.mp ho).1
    exact hnone (k.data + o)
      (mem_entriesOf.mpr ⟨o, mem_of_find?_eq_some ho, hin, rfl⟩)
      ((namesRecord_load buffer hin).mp hnames)

theorem firstEntry_of_unnamed {buffer : Mem} (h : Unnamed vpd record k buffer) :
    (∀ p ∈ entriesOf k, ¬NamesRecord vpd.image record p) ∧
      firstEntry vpd record recordEnd (k :: keywords)
        = firstEntry vpd record recordEnd keywords := by
  have hnone : ∀ p ∈ entriesOf k, ¬NamesRecord vpd.image record p := by
    intro p hp hnames
    obtain ⟨o, ho, hin, rfl⟩ := mem_entriesOf.mp hp
    exact h o ho ((namesRecord_load buffer hin).mpr hnames)
  refine ⟨hnone, ?_⟩
  by_cases hinside : k.data + k.size ≤ recordEnd
  · rw [firstEntry_of_inside hinside, find?_eq_none.mpr (by simpa using hnone),
      Option.none_or]
  · exact firstEntry_of_outside hinside

end

theorem within_eq {offset : UInt16} {k : Keyword} (hlow : offset.toNat ≤ k.data)
    (hdata : k.data < 2 ^ 16) (hsize : k.size < 2 ^ 16) :
    KeywordHeader.within ⟨k.name, UInt16.ofNat k.size, UInt16.ofNat k.data⟩ offset = k := by
  have hdata16 : (UInt16.ofNat k.data).toNat = k.data := UInt16.toNat_ofNat_of_lt' hdata
  have hplace : offset.toNat + (UInt16.ofNat k.data - offset).toNat = k.data := by
    rw [UInt16.toNat_sub_of_le _ _ (by rw [UInt16.le_iff_toNat_le]; omega), hdata16]
    omega
  rw [KeywordHeader.within, hplace, UInt16.toNat_ofNat_of_lt' hsize]

theorem scans_right_iff {vpd : Eeprom} {record : Bytes} {offset : UInt16}
    (hrecord : IsRecord vpd VPD_TABLE_OF_CONTENTS_RECORD_NAME offset) {n left : Nat}
    (hn : n < 2 ^ 16) {keywords : List Keyword} {i q : Nat}
    (hkeywords : named VPD_KEYWORD_POINTER_TO_RECORD (keywordsFrom vpd (recordEndAt vpd offset) q)
      = keywords)
    (hi : i + keywords.length = n) (hstart : keywordsStart offset ≤ q)
    (hleft : leftAt vpd (recordEndAt vpd offset) q = left) (hat : At vpd offset i (UInt16.ofNat q))
    (hloads : ∀ j < i, ∃ k, Loads vpd offset (UInt16.ofNat j) k) (buffer : Mem) :
    (∃ looped, Scans vpd record offset (UInt16.ofNat i) buffer looped ∧
        Verdict vpd (firstEntry vpd record (recordEndAt vpd offset) keywords) looped)
      ↔ TakesComplete vpd record (recordEndAt vpd offset)
        (EndsUnnamed vpd record offset (UInt16.ofNat left) · (2 ^ 16 - 1 - n)) keywords buffer := by
  induction keywords generalizing i q buffer with
  | nil =>
    obtain rfl : i = n := hi
    have hbehind : At vpd offset i (UInt16.ofNat left) := by
      intro index hle result
      rw [hat index hle result, returns_of_not_named hle (by rw [hkeywords]; rfl), hkeywords, hleft]
      rfl
    rw [TakesComplete, ← scans_behind_iff hrecord (by omega) hbehind hloads]
    simp only [show firstEntry vpd record (recordEndAt vpd offset) [] = none from rfl, verdict_none]
  | cons k keywords ih =>
    rw [length_cons] at hi
    obtain ⟨hmeets, hrest, hleft'⟩ := meets_of_named hkeywords
    have hmem : k ∈ keywordsFrom vpd (recordEndAt vpd offset) q :=
      (mem_filter.mp (show k ∈ named VPD_KEYWORD_POINTER_TO_RECORD _ from
        hkeywords ▸ mem_cons_self)).1
    obtain ⟨hlow, hdata16, hsize16⟩ := bounds_of_mem_keywordsFrom hmem
    have hstart' : offset.toNat ≤ keywordsStart offset := by
      unfold keywordsStart
      omega
    have hwithin := @within_eq offset k (by omega) hdata16 hsize16
    by_cases hdata : vpd.readable k.data k.size = true
    swap
    · rw [TakesComplete, if_neg hdata]
      obtain ⟨err, hreads⟩ :=
        At.reads_unreadable hrecord hat (by omega) hmeets (by rwa [hwithin]) buffer
      constructor
      · rintro ⟨looped, hscans, hverdict⟩
        exact (verdict_of_lost (scans_error hreads hscans)).mp hverdict
      · intro hfirst
        obtain ⟨looped, hscans⟩ := exists_scans_error hreads
        exact ⟨looped, hscans, (verdict_of_lost (scans_error hreads hscans)).mpr hfirst⟩
    rw [TakesComplete, if_pos hdata]
    have hload := At.loads hrecord hat (by omega) hmeets (by rwa [hwithin])
    rw [hwithin] at hload
    simp only [scans_iff (hload buffer), Option.getD_some]
    cases hscan : scanBuffer record (load vpd k buffer) k.size with
    | some found =>
      have hnamed : ¬Unnamed vpd record k buffer := by
        rw [← scanBuffer_eq_none, hscan]
        nofun
      have hlast (houtside : ¬k.data + k.size ≤ recordEndAt vpd offset) : keywords = [] := by
        rw [← hrest, keywordsFrom_of_ge (Nat.le_of_not_le houtside)]
        rfl
      dsimp only
      rw [exists_eq_left, verdict_scanBuffer_iff hscan hlast,
        or_iff_left fun h => hnamed h.1]
    | none =>
      have hunnamed := scanBuffer_eq_none.mp hscan
      obtain ⟨hnone, hfirst⟩ :=
        @firstEntry_of_unnamed vpd record (recordEndAt vpd offset) k keywords buffer hunnamed
      have hindex : UInt16.ofNat i + 1 = UInt16.ofNat (i + 1) := (UInt16.ofNat_add i 1).symm
      have hat' := hat.next hmeets
      dsimp only at hat'
      rw [next_of_keywordAt] at hat'
      dsimp only
      rw [hfirst, hindex, or_iff_right (fun ⟨_, p, hp, hnames⟩ => hnone p hp hnames),
        and_iff_right hunnamed]
      exact ih hrest (by omega) (by omega) (hleft'.trans hleft) hat' (hload.below_succ hloads)
        (load vpd k buffer)

/-! ## The lookup -/

section

variable {vpd : Eeprom} {stack : Mem} {record : Bytes} {vtoc : UInt16}

theorem exists_scanVtoc_iff {looped : Except Errl (Option PtMatch)} :
    (∃ rounds, scanVtoc rounds vpd stack record vtoc = some looped)
      ↔ Scans vpd record (vtoc + 1) 0 (stack.write 0 (Packed.zeros PT_BUFFER_SIZE)) looped := by
  constructor
  · rintro ⟨rounds, hscan⟩
    exact ⟨rounds, rounds, hscan⟩
  · rintro ⟨rounds, more, hscan⟩
    exact ⟨max rounds more,
      scanKeywords_of_le (Nat.le_max_left rounds more) (Nat.le_max_right rounds more) hscan⟩

theorem getVtocRecordMetaData_of_le {m n : Nat} (hle : m ≤ n) {located : Except Errl UInt16}
    (h : getVtocRecordMetaData m vpd stack = some located) :
    getVtocRecordMetaData n vpd stack = some located := by
  unfold getVtocRecordMetaData at h ⊢
  obtain ⟨read, hread, rfl⟩ := Option.map_eq_some_iff.mp h
  dsimp only
  rw [retrieveKeyword_of_le hle hread, Option.map_some]

theorem exists_located_iff :
    (∃ rounds located, getVtocRecordMetaData rounds vpd stack = some located) ↔
      (IsRecord vpd VPD_HEADER_RECORD_NAME
          (UInt16.ofNat (VHDR_ECC_DATA_SIZE + RESOURCE_ID_SIZE)) →
        ∃ met, Meets vpd (UInt16.ofNat (VHDR_ECC_DATA_SIZE + RESOURCE_ID_SIZE))
          (UInt16.ofNat (keywordsStart (UInt16.ofNat (VHDR_ECC_DATA_SIZE + RESOURCE_ID_SIZE))))
          met) := by
  generalize hheader : UInt16.ofNat (VHDR_ECC_DATA_SIZE + RESOURCE_ID_SIZE) = header
  unfold getVtocRecordMetaData
  rw [hheader]
  simp only [Option.map_eq_some_iff]
  by_cases hrecord : IsRecord vpd VPD_HEADER_RECORD_NAME header
  swap
  · obtain ⟨err, herr⟩ := retrieveKeyword_of_not_isRecord hrecord 0 0
      (stack.write 0 (Packed.zeros VHDR_RECORD_SIZE)) VHDR_RECORD_SIZE
    exact iff_of_true ⟨0, _, _, herr, rfl⟩ (fun h => absurd h hrecord)
  rw [imp_iff_right hrecord]
  simp only [retrieveKeyword_of_isRecord hrecord, Option.map_eq_some_iff]
  constructor
  · rintro ⟨rounds, -, -, ⟨result, hrun, -⟩, -⟩
    exact exists_meets ⟨rounds, hrun⟩
  · rintro ⟨_ | met, hmeets⟩
    · obtain ⟨result, ⟨rounds, hrun⟩, -⟩ := hmeets.returns_none 0 0
      exact ⟨rounds, _, _, ⟨result, hrun, rfl⟩, rfl⟩
    · obtain ⟨rounds, hrun⟩ := hmeets.returns_some (show 0 = (0 : UInt16).toNat from rfl)
      exact ⟨rounds, _, _, ⟨_, hrun, rfl⟩, rfl⟩

theorem rightLookup_of_located
    (hvtoc : ∃ rounds, getVtocRecordMetaData rounds vpd stack = some (.ok vtoc)) :
    RightLookup vpd stack record ↔
      ∃ looped, Scans vpd record (vtoc + 1) 0 (stack.write 0 (Packed.zeros PT_BUFFER_SIZE)) looped ∧
        Verdict vpd (firstEntry vpd record (recordEndAt vpd (vtoc + 1)) (ptKeywords vpd (vtoc + 1)))
          looped := by
  obtain ⟨m, hvtoc⟩ := hvtoc
  simp only [← exists_scanVtoc_iff]
  constructor
  · rintro ⟨n, located, result, hget, hfind, hright⟩
    have hsame := getVtocRecordMetaData_of_le (Nat.le_max_left m n) hvtoc
    rw [getVtocRecordMetaData_of_le (Nat.le_max_right m n) hget] at hsame
    cases hsame
    obtain ⟨hresult, looped, hscan, hin⟩ := hright
    unfold findRecordMetaDataSeeprom at hfind
    rw [hget] at hfind
    dsimp only at hfind
    rw [hscan, Option.map_some, Option.some.injEq] at hfind
    change ofLooped looped = result at hfind
    subst hfind
    exact ⟨looped, ⟨n, hscan⟩, hresult, hin⟩
  · rintro ⟨looped, ⟨n, hscan⟩, hresult, hin⟩
    have hget := getVtocRecordMetaData_of_le (Nat.le_max_left m n) hvtoc
    have hscan := scanKeywords_of_le (Nat.le_max_right m n) (Nat.le_max_right m n) hscan
    refine ⟨max m n, .ok vtoc, ofLooped looped, hget, ?_, hresult, looped, hscan, hin⟩
    unfold findRecordMetaDataSeeprom
    rw [hget]
    dsimp only
    rw [show scanVtoc (max m n) vpd stack record vtoc = some looped from hscan, Option.map_some]
    rfl

theorem rightLookup_of_isRecord
    (hvtoc : ∃ rounds, getVtocRecordMetaData rounds vpd stack = some (.ok vtoc))
    (hrecord : IsRecord vpd VPD_TABLE_OF_CONTENTS_RECORD_NAME (vtoc + 1)) :
    RightLookup vpd stack record ↔
      TakesComplete vpd record (recordEndAt vpd (vtoc + 1))
        (EndsUnnamed vpd record (vtoc + 1)
          (UInt16.ofNat (leftAt vpd (recordEndAt vpd (vtoc + 1)) (keywordsStart (vtoc + 1)))) ·
          (2 ^ 16 - 1 - (ptKeywords vpd (vtoc + 1)).length))
        (ptKeywords vpd (vtoc + 1)) (stack.write 0 (Packed.zeros PT_BUFFER_SIZE)) := by
  rw [rightLookup_of_located hvtoc, ptKeywords, if_pos hrecord, named_recordKeywords_PT]
  exact scans_right_iff hrecord (length_named_lt vpd _ _) rfl (Nat.zero_add _) (Nat.le_refl _) rfl
    (fun _ _ _ => Iff.rfl) (fun j hj => absurd hj (Nat.not_lt_zero j)) _

end

/-- The lookup is right exactly for the VPDs whose table of contents is well located. -/
theorem rightLookup_iff (vpd : Eeprom) (stack : Mem) (record : Bytes) :
    RightLookup vpd stack record ↔ WellLocated vpd stack record := by
  unfold WellLocated
  dsimp only
  rw [← @exists_located_iff vpd stack]
  by_cases hends : ∃ rounds located, getVtocRecordMetaData rounds vpd stack = some located
  swap
  · refine iff_of_false ?_ (fun h => hends h.1)
    rintro ⟨rounds, located, -, hget, -⟩
    exact hends ⟨rounds, located, hget⟩
  rw [and_iff_right hends]
  obtain ⟨m, located, hget⟩ := hends
  have hunique {vtoc : UInt16}
      (h : ∃ rounds, getVtocRecordMetaData rounds vpd stack = some (.ok vtoc)) :
      located = .ok vtoc := by
    obtain ⟨n, hvtoc⟩ := h
    have hsame := getVtocRecordMetaData_of_le (Nat.le_max_left m n) hget
    rw [getVtocRecordMetaData_of_le (Nat.le_max_right m n) hvtoc] at hsame
    exact (Option.some.inj hsame).symm
  rcases located with err | vtoc
  · refine iff_of_true ⟨m, .error err, .error err, hget, ?_, err, rfl⟩
      (fun vtoc h => nomatch hunique h)
    unfold findRecordMetaDataSeeprom
    rw [hget]
  have hall {P : UInt16 → Prop} :
      (∀ vtoc', (∃ rounds, getVtocRecordMetaData rounds vpd stack = some (.ok vtoc')) → P vtoc')
        ↔ P vtoc := by
    constructor
    · exact fun h => h vtoc ⟨m, hget⟩
    · rintro h vtoc' hvtoc
      cases hunique hvtoc
      exact h
  rw [hall]
  by_cases hrecord : IsRecord vpd VPD_TABLE_OF_CONTENTS_RECORD_NAME (vtoc + 1)
  swap
  · have hfirst : firstEntry vpd record (recordEndAt vpd (vtoc + 1)) (ptKeywords vpd (vtoc + 1))
        = none := by
      rw [ptKeywords, if_neg hrecord]
      rfl
    obtain ⟨err, herr⟩ := retrieveKeyword_of_not_isRecord hrecord 0 0
      (stack.write 0 (Packed.zeros PT_BUFFER_SIZE)) PT_BUFFER_SIZE
    obtain ⟨looped, hscans⟩ := @exists_scans_error vpd record _ _ _ err ⟨0, herr⟩
    refine iff_of_true ((rightLookup_of_located ⟨m, hget⟩).mpr ⟨looped, hscans, ?_⟩)
      (fun h => absurd h hrecord)
    rw [hfirst, verdict_none]
    exact scans_error ⟨0, herr⟩ hscans
  rw [imp_iff_right hrecord]
  exact rightLookup_of_isRecord ⟨m, hget⟩ hrecord

/-- A VPD whose table of contents has one `PT` keyword of 18 bytes: the entry of the record
`VINI`, and the name `MVPD` behind it. -/
def partialVpd : Eeprom where
  image := fun i =>
    [0, 0, 0, 0, 0, 0, 0, 0, 0, 0, 0, 0x84,
      0x18, 0, 0x52, 0x54, 0x04, 0x56, 0x48, 0x44, 0x52,
      0x50, 0x54, 0x0E, 0x56, 0x54, 0x4F, 0x43, 0, 0, 0x27, 0, 0, 0, 0, 0, 0, 0, 0x78,
      0x84, 0x1C, 0, 0x52, 0x54, 0x04, 0x56, 0x54, 0x4F, 0x43,
      0x50, 0x54, 0x12, 0x56, 0x49, 0x4E, 0x49, 0, 0, 0x34, 0x12, 0x10, 0, 0, 0, 0, 0,
      0x4D, 0x56, 0x50, 0x44].getD i 0
  readable := fun _ _ => true

theorem partialVpd_vtoc :
    ∃ rounds, getVtocRecordMetaData rounds partialVpd (fun _ => 0) = some (.ok 39) :=
  ⟨2, rfl⟩

theorem partialVpd_keywords : keywordsFrom partialVpd 70 49 = [⟨[0x50, 0x54], 52, 18⟩] ∧
    leftAt partialVpd 70 49 = 70 := by
  have hat : keywordAt partialVpd 49 = some ⟨[0x50, 0x54], 52, 18⟩ := by decide
  rw [keywordsFrom_of_some (by decide) hat, leftAt_of_some (by decide) hat,
    keywordsFrom_of_ge (by decide), leftAt_of_ge (by decide)]
  exact ⟨rfl, rfl⟩

theorem partialVpd_isRecord :
    IsRecord partialVpd VPD_TABLE_OF_CONTENTS_RECORD_NAME (39 + 1) := by decide

theorem partialVpd_ptKeywords : ptKeywords partialVpd (39 + 1) = [⟨[0x50, 0x54], 52, 18⟩] := by
  rw [ptKeywords, if_pos partialVpd_isRecord, named_recordKeywords_PT,
    show recordEndAt partialVpd (39 + 1) = 70 from rfl,
    show keywordsStart (39 + 1) = 49 from rfl, partialVpd_keywords.1]
  rfl

/-- The record that has an entry is found. -/
example : RightLookup partialVpd (fun _ => 0) [0x56, 0x49, 0x4E, 0x49] := by
  rw [rightLookup_of_isRecord partialVpd_vtoc partialVpd_isRecord, partialVpd_ptKeywords]
  exact Or.inl ⟨by decide, 52, by decide, by decide⟩

/-- The name of a record without an entry is found behind the entries. -/
theorem partial_entry_found :
    ¬RightLookup partialVpd (fun _ => 0) [0x4D, 0x56, 0x50, 0x44] := by
  rw [rightLookup_of_isRecord partialVpd_vtoc partialVpd_isRecord, partialVpd_ptKeywords]
  have hentries : entriesOf ⟨[0x50, 0x54], 52, 18⟩ = [52] := by decide
  rintro (⟨-, p, hp, hnames⟩ | ⟨hunnamed, -⟩)
  · rw [hentries] at hp
    obtain rfl := mem_singleton.mp hp
    exact absurd hnames (by decide)
  · exact hunnamed 14 (by decide) (by decide)

end Hostboot.Vpd
