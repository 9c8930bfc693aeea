import Hostboot.Vpd.IpVpd

/-!
# The keywords of a record

The keywords of a record stand one behind the other, from behind its name to
the end that its size gives (`keywordsFrom`).  The `RT` keyword in front of
them holds the name.  `findKeywordAddr` should end for every VPD, and what it
finds should be a keyword of the record, with its data inside (`Right`).

The code takes the offsets of the keywords to 16 bits and looks only at the
offset of a keyword, not at the end of its data.

* `findKeywordAddr_right_iff` says for every VPD when the code is right.  A
  keyword that is in the record has to end in it, and when it is not in the
  record, and the walk leaves the record past the last offset of 16 bits, the
  walk has to come to an end from the offset that is left over (`EndsWithout`).
-/

namespace Hostboot.Vpd

open Hostboot.Lib List

/-! ## The record -/

/-- A keyword with the place of its data. -/
structure Keyword where
  name : Bytes
  data : Nat
  size : Nat
  deriving DecidableEq, Repr

/-- How many bytes the size of a keyword has. -/
def sizeBytes (name : Bytes) : Nat :=
  if name.head? = some POUND then KEYWORD_SIZE_BYTE_SIZE + 1 else KEYWORD_SIZE_BYTE_SIZE

/-- The keyword at a place.  It can be read, and its data is at an offset of 16 bits. -/
def keywordAt (vpd : Eeprom) (p : Nat) : Option Keyword :=
  let name := vpd.image.read p KEYWORD_BYTE_SIZE
  let n := sizeBytes name
  let data := p + KEYWORD_BYTE_SIZE + n
  if vpd.readable p KEYWORD_BYTE_SIZE = true ∧ vpd.readable (p + KEYWORD_BYTE_SIZE) n = true ∧
      data < 2 ^ 16 then
    some ⟨name, data, leToNat (vpd.image.read (p + KEYWORD_BYTE_SIZE) n)⟩
  else none

theorem lt_data_of_keywordAt {vpd : Eeprom} {p : Nat} {k : Keyword}
    (h : keywordAt vpd p = some k) : p < k.data := by
  unfold keywordAt at h
  dsimp only at h
  split at h
  · cases h
    exact Nat.lt_of_lt_of_le (Nat.lt_add_of_pos_right (by decide)) (Nat.le_add_right _ _)
  · cases h

/-- The keywords that a walk meets from a place to the end of the record. -/
def keywordsFrom (vpd : Eeprom) (recordEnd p : Nat) : List Keyword :=
  if p < recordEnd then
    match _hk : keywordAt vpd p with
    | none => []
    | some k => k :: keywordsFrom vpd recordEnd (k.data + k.size)
  else []
termination_by recordEnd - p
decreasing_by
  have hlt := lt_data_of_keywordAt _hk
  omega

/-- Where the walk leaves the record. -/
def leftAt (vpd : Eeprom) (recordEnd p : Nat) : Nat :=
  if p < recordEnd then
    match _hk : keywordAt vpd p with
    | none => p
    | some k => leftAt vpd recordEnd (k.data + k.size)
  else p
termination_by recordEnd - p
decreasing_by
  have hlt := lt_data_of_keywordAt _hk
  omega

section

variable {vpd : Eeprom} {recordEnd p : Nat}

theorem keywordsFrom_of_ge (h : recordEnd ≤ p) : keywordsFrom vpd recordEnd p = [] := by
  rw [keywordsFrom, if_neg (Nat.not_lt.mpr h)]

theorem leftAt_of_ge (h : recordEnd ≤ p) : leftAt vpd recordEnd p = p := by
  rw [leftAt, if_neg (Nat.not_lt.mpr h)]

theorem keywordsFrom_of_none (h : keywordAt vpd p = none) : keywordsFrom vpd recordEnd p = [] := by
  rw [keywordsFrom]
  split
  · split
    · rfl
    · rename_i k hk
      rw [h] at hk
      cases hk
  · rfl

theorem leftAt_of_none (h : keywordAt vpd p = none) : leftAt vpd recordEnd p = p := by
  rw [leftAt]
  split
  · split
    · rfl
    · rename_i k hk
      rw [h] at hk
      cases hk
  · rfl

variable {k : Keyword}

theorem keywordsFrom_of_some (hlt : p < recordEnd) (h : keywordAt vpd p = some k) :
    keywordsFrom vpd recordEnd p = k :: keywordsFrom vpd recordEnd (k.data + k.size) := by
  rw [keywordsFrom, if_pos hlt]
  split
  · rename_i hk
    rw [h] at hk
    cases hk
  · rename_i k' hk
    rw [h] at hk
    cases hk
    rfl

theorem leftAt_of_some (hlt : p < recordEnd) (h : keywordAt vpd p = some k) :
    leftAt vpd recordEnd p = leftAt vpd recordEnd (k.data + k.size) := by
  rw [leftAt, if_pos hlt]
  split
  · rename_i hk
    rw [h] at hk
    cases hk
  · rename_i k' hk
    rw [h] at hk
    cases hk
    rfl

end

/-- The place behind the size of a record and its name, where the keywords start. -/
def keywordsStart (recordOffset : UInt16) : Nat :=
  recordOffset.toNat + RECORD_ADDR_BYTE_SIZE + RT_SKIP_BYTES + RECORD_BYTE_SIZE

/-- The size of a record. -/
def recordSizeAt (vpd : Eeprom) (recordOffset : UInt16) : Nat :=
  leToNat (vpd.image.read recordOffset.toNat RECORD_ADDR_BYTE_SIZE)

/-- The end of a record. -/
def recordEndAt (vpd : Eeprom) (recordOffset : UInt16) : Nat :=
  recordSizeAt vpd recordOffset + recordOffset.toNat + RECORD_ADDR_BYTE_SIZE

/-- The keywords of a record. -/
def recordKeywords (vpd : Eeprom) (recordOffset : UInt16) : List Keyword :=
  ⟨KEYWORD_RECORD_TYPE, recordOffset.toNat + RECORD_ADDR_BYTE_SIZE + RT_SKIP_BYTES,
      RECORD_BYTE_SIZE⟩ ::
    keywordsFrom vpd (recordEndAt vpd recordOffset) (keywordsStart recordOffset)

/-- The keywords with a name. -/
def named (keywordName : Bytes) (keywords : List Keyword) : List Keyword :=
  keywords.filter fun k => k.name = keywordName.take KEYWORD_BYTE_SIZE

/-- What is found is the keyword of the record with this index among those of the name, and
its data is inside the record. -/
def Found.IsKeyword (found : Found) (vpd : Eeprom) (keywordName : Bytes)
    (recordOffset index : UInt16) : Prop :=
  ∃ k, (named keywordName (recordKeywords vpd recordOffset))[index.toNat]? = some k ∧
    found.keywordSize.toNat = k.size ∧
    recordOffset.toNat + found.keywordOffset.toNat = k.data ∧
    recordOffset.toNat + RECORD_ADDR_BYTE_SIZE + RT_SKIP_BYTES ≤ k.data ∧
    k.data + k.size ≤ recordEndAt vpd recordOffset

/-- `findKeywordAddr` ends, and what it finds is that keyword. -/
def Right (vpd : Eeprom) (keywordName recordName : Bytes) (recordOffset index : UInt16) : Prop :=
  ∃ rounds result,
    findKeywordAddr rounds vpd keywordName recordName recordOffset index = some result ∧
    ∀ found, result = .ok found →
      found.IsKeyword vpd keywordName recordOffset index

/-! ## The loop -/

theorem leToNat_lt {bs : Bytes} (h : bs.length ≤ 2) : leToNat bs < 2 ^ 16 := by
  have hlt := Wire.decode_lt (show bs.reverse.length = bs.length from length_reverse)
  exact Nat.lt_of_lt_of_le hlt (Nat.pow_le_pow_right (n := 256) (by decide) h)

theorem sizeBytes_le (name : Bytes) : sizeBytes name ≤ 2 := by
  unfold sizeBytes
  split <;> decide

theorem size_lt_of_keywordAt {vpd : Eeprom} {p : Nat} {k : Keyword}
    (h : keywordAt vpd p = some k) : k.size < 2 ^ 16 ∧ k.data < 2 ^ 16 := by
  unfold keywordAt at h
  dsimp only at h
  split at h
  · rename_i hat
    cases h
    refine ⟨leToNat_lt ?_, hat.2.2⟩
    rw [Mem.length_read]
    exact sizeBytes_le _
  · cases h

theorem readKeyword_of_keywordAt {vpd : Eeprom} {p : Nat} {k : Keyword}
    (h : keywordAt vpd p = some k) :
    readKeyword vpd (UInt16.ofNat p)
      = .ok ⟨k.name, UInt16.ofNat k.size, UInt16.ofNat k.data⟩ := by
  have hp : p < 2 ^ 16 := Nat.lt_trans (lt_data_of_keywordAt h) (size_lt_of_keywordAt h).2
  have hplace : (UInt16.ofNat p).toNat = p := UInt16.toNat_ofNat_of_lt' hp
  unfold keywordAt at h
  dsimp only at h
  split at h
  · rename_i hat
    cases h
    obtain ⟨hname, hsize, hdata⟩ := hat
    have hnext : (UInt16.ofNat p + UInt16.ofNat KEYWORD_BYTE_SIZE).toNat = p + KEYWORD_BYTE_SIZE := by
      rw [← UInt16.ofNat_add]
      exact UInt16.toNat_ofNat_of_lt' (Nat.lt_of_le_of_lt (Nat.le_add_right _ _) hdata)
    have hfetch : fetchData vpd (UInt16.ofNat p).toNat KEYWORD_BYTE_SIZE
        = .ok (vpd.image.read p KEYWORD_BYTE_SIZE) := by
      rw [fetchData, hplace, if_pos hname]
    have hfetchSize : fetchData vpd (UInt16.ofNat p + UInt16.ofNat KEYWORD_BYTE_SIZE).toNat
          (sizeBytes (vpd.image.read p KEYWORD_BYTE_SIZE))
        = .ok (vpd.image.read (p + KEYWORD_BYTE_SIZE)
            (sizeBytes (vpd.image.read p KEYWORD_BYTE_SIZE))) := by
      rw [fetchData, hnext, if_pos hsize]
    unfold readKeyword
    rw [hfetch]
    change (fetchData vpd (UInt16.ofNat p + UInt16.ofNat KEYWORD_BYTE_SIZE).toNat
      (sizeBytes (vpd.image.read p KEYWORD_BYTE_SIZE)) >>= _) = _
    rw [hfetchSize]
    change Except.ok _ = Except.ok _
    rw [UInt16.ofNat_add, UInt16.ofNat_add]
    rfl
  · cases h

section

variable (vpd : Eeprom) (keywordName : Bytes) (recordOffset index : UInt16) (recordEnd : Nat)

/-- From an offset the walk, with offsets of 16 bits, comes to the end of the record or to a
keyword that cannot be read, with at most so many matches in front of it. -/
inductive EndsWithout : UInt16 → Nat → Prop
  | past {offset : UInt16} {more : Nat} (h : recordEnd ≤ offset.toNat) : EndsWithout offset more
  | unreadable {offset : UInt16} {more : Nat} {err : Errl} (hlt : offset.toNat < recordEnd)
      (h : readKeyword vpd offset = .error err) : EndsWithout offset more
  | other {offset : UInt16} {more : Nat} {header : KeywordHeader}
      (hlt : offset.toNat < recordEnd) (h : readKeyword vpd offset = .ok header)
      (hname : header.keyword ≠ keywordName.take KEYWORD_BYTE_SIZE)
      (hrest : EndsWithout (header.offset + header.keywordSize) more) : EndsWithout offset more
  | again {offset : UInt16} {more : Nat} {header : KeywordHeader}
      (hlt : offset.toNat < recordEnd) (h : readKeyword vpd offset = .ok header)
      (hname : header.keyword = keywordName.take KEYWORD_BYTE_SIZE)
      (hrest : EndsWithout (header.offset + header.keywordSize) more) :
      EndsWithout offset (more + 1)

end

section

variable {vpd : Eeprom} {keywordName : Bytes} {recordOffset index : UInt16} {recordEnd : Nat}

/-! One round of the loop. -/

theorem keywordLoop_past {offset : UInt16} {m : Nat} (h : recordEnd ≤ offset.toNat) :
    keywordLoop vpd keywordName recordOffset index recordEnd (offset, m) = .inl (.ok none) := by
  rw [keywordLoop, if_neg (Nat.not_lt.mpr h)]

section

variable {offset : UInt16} {m : Nat} {header : KeywordHeader} (hlt : offset.toNat < recordEnd)
include hlt

theorem keywordLoop_error {err : Errl} (h : readKeyword vpd offset = .error err) :
    keywordLoop vpd keywordName recordOffset index recordEnd (offset, m)
      = .inl (.error err) := by
  rw [keywordLoop, if_pos hlt, h]

theorem keywordLoop_other (h : readKeyword vpd offset = .ok header)
    (hname : header.keyword ≠ keywordName.take KEYWORD_BYTE_SIZE) :
    keywordLoop vpd keywordName recordOffset index recordEnd (offset, m)
      = .inr (header.offset + header.keywordSize, m) := by
  rw [keywordLoop, if_pos hlt, h]
  exact if_neg hname

theorem keywordLoop_again (h : readKeyword vpd offset = .ok header)
    (hname : header.keyword = keywordName.take KEYWORD_BYTE_SIZE) (hm : m ≠ index.toNat) :
    keywordLoop vpd keywordName recordOffset index recordEnd (offset, m)
      = .inr (header.offset + header.keywordSize, m + 1) := by
  rw [keywordLoop, if_pos hlt, h]
  dsimp only
  rw [if_pos hname, if_neg (by omega)]

theorem keywordLoop_found (h : readKeyword vpd offset = .ok header)
    (hname : header.keyword = keywordName.take KEYWORD_BYTE_SIZE) (hm : m = index.toNat) :
    keywordLoop vpd keywordName recordOffset index recordEnd (offset, m)
      = .inl (.ok (some ⟨header.keywordSize, header.offset - recordOffset⟩)) := by
  rw [keywordLoop, if_pos hlt, h]
  dsimp only
  rw [if_pos hname, if_pos (by omega)]

end

theorem endsWithout_iff {offset : UInt16} {m more : Nat} (hindex : m + more = index.toNat) :
    EndsWithout vpd keywordName recordEnd offset more ↔
      ∃ result, Loop.Returns (keywordLoop vpd keywordName recordOffset index recordEnd)
        (offset, m) result ∧ ∀ found, result ≠ .ok (some found) := by
  constructor
  · intro h
    induction h generalizing m with
    | past h =>
      exact ⟨.ok none, (Loop.returns_of_done (keywordLoop_past h)).mpr rfl, nofun⟩
    | @unreadable offset more err hlt h =>
      exact ⟨.error err, (Loop.returns_of_done (keywordLoop_error hlt h)).mpr rfl, nofun⟩
    | other hlt h hname _ ih =>
      obtain ⟨result, hreturns, hlost⟩ := ih hindex
      exact ⟨result, (Loop.returns_of_next (keywordLoop_other hlt h hname)).mpr hreturns, hlost⟩
    | again hlt h hname _ ih =>
      obtain ⟨result, hreturns, hlost⟩ := @ih (m + 1) (by omega)
      have hm : m ≠ index.toNat := by omega
      exact ⟨result, (Loop.returns_of_next (keywordLoop_again hlt h hname hm)).mpr hreturns, hlost⟩
  · rintro ⟨result, ⟨rounds, hrun⟩, hlost⟩
    induction rounds generalizing offset m more with
    | zero => cases hrun
    | succ rounds ih =>
      by_cases hlt : offset.toNat < recordEnd
      swap
      · exact .past (Nat.not_lt.mp hlt)
      cases hread : readKeyword vpd offset with
      | error err => exact .unreadable hlt hread
      | ok header =>
        rw [Loop.run] at hrun
        by_cases hname : header.keyword = keywordName.take KEYWORD_BYTE_SIZE
        · by_cases hm : m = index.toNat
          · rw [keywordLoop_found hlt hread hname hm] at hrun
            exact absurd (Option.some.inj hrun).symm (hlost _)
          · rw [keywordLoop_again hlt hread hname hm] at hrun
            obtain ⟨more, rfl⟩ : ∃ n, more = n + 1 := ⟨more - 1, by omega⟩
            exact .again hlt hread hname (ih (by omega) hrun)
        · rw [keywordLoop_other hlt hread hname] at hrun
          exact .other hlt hread hname (ih hindex hrun)

theorem next_of_keywordAt (k : Keyword) :
    UInt16.ofNat k.data + UInt16.ofNat k.size = UInt16.ofNat (k.data + k.size) :=
  (UInt16.ofNat_add _ _).symm

theorem toNat_ofNat_of_keywordAt {p : Nat} {k : Keyword} (h : keywordAt vpd p = some k) :
    (UInt16.ofNat p).toNat = p :=
  UInt16.toNat_ofNat_of_lt' (Nat.lt_trans (lt_data_of_keywordAt h) (size_lt_of_keywordAt h).2)

/-- The loop finds the keyword that the walk through the record meets. -/
theorem returns_of_named {p m : Nat} {k : Keyword} (hle : m ≤ index.toNat)
    (h : (named keywordName (keywordsFrom vpd recordEnd p))[index.toNat - m]? = some k)
    (result : Except Errl (Option Found)) :
    Loop.Returns (keywordLoop vpd keywordName recordOffset index recordEnd)
        (UInt16.ofNat p, m) result
      ↔ result = .ok (some ⟨UInt16.ofNat k.size, UInt16.ofNat k.data - recordOffset⟩) := by
  induction p using keywordsFrom.induct vpd recordEnd generalizing m with
  | case1 p hlt hk =>
    rw [keywordsFrom_of_none hk] at h
    cases h
  | case2 p hlt k' hk ih =>
    have hread := readKeyword_of_keywordAt hk
    have hat : (UInt16.ofNat p).toNat < recordEnd := by rwa [toNat_ofNat_of_keywordAt hk]
    rw [keywordsFrom_of_some hlt hk] at h
    by_cases hname : k'.name = keywordName.take KEYWORD_BYTE_SIZE
    · rw [named, filter_cons_of_pos (by simpa using hname)] at h
      by_cases hm : m = index.toNat
      · rw [hm, Nat.sub_self, getElem?_cons_zero, Option.some.injEq] at h
        rw [Loop.returns_of_done (keywordLoop_found hat hread hname hm), h]
      · rw [show index.toNat - m = index.toNat - (m + 1) + 1 by omega,
          getElem?_cons_succ] at h
        rw [Loop.returns_of_next (keywordLoop_again hat hread hname hm), next_of_keywordAt]
        exact ih (by omega) h
    · rw [named, filter_cons_of_neg (by simpa using hname)] at h
      rw [Loop.returns_of_next (keywordLoop_other hat hread hname), next_of_keywordAt]
      exact ih hle h
  | case3 p hlt =>
    rw [keywordsFrom_of_ge (Nat.not_lt.mp hlt)] at h
    cases h

theorem returns_of_not_named {p m : Nat} (hle : m ≤ index.toNat)
    (h : (named keywordName (keywordsFrom vpd recordEnd p))[index.toNat - m]? = none)
    (result : Except Errl (Option Found)) :
    Loop.Returns (keywordLoop vpd keywordName recordOffset index recordEnd)
        (UInt16.ofNat p, m) result
      ↔ Loop.Returns (keywordLoop vpd keywordName recordOffset index recordEnd)
          (UInt16.ofNat (leftAt vpd recordEnd p),
            m + (named keywordName (keywordsFrom vpd recordEnd p)).length) result := by
  induction p using keywordsFrom.induct vpd recordEnd generalizing m with
  | case1 p hlt hk =>
    rw [keywordsFrom_of_none hk, leftAt_of_none hk]
    rfl
  | case2 p hlt k' hk ih =>
    have hread := readKeyword_of_keywordAt hk
    have hat : (UInt16.ofNat p).toNat < recordEnd := by rwa [toNat_ofNat_of_keywordAt hk]
    rw [leftAt_of_some hlt hk]
    rw [keywordsFrom_of_some hlt hk] at h ⊢
    by_cases hname : k'.name = keywordName.take KEYWORD_BYTE_SIZE
    · rw [named, filter_cons_of_pos (by simpa using hname)] at h ⊢
      have hm : m ≠ index.toNat := by
        rintro rfl
        rw [Nat.sub_self] at h
        cases h
      rw [show index.toNat - m = index.toNat - (m + 1) + 1 by omega,
        getElem?_cons_succ] at h
      rw [Loop.returns_of_next (keywordLoop_again hat hread hname hm), next_of_keywordAt,
        ih (by omega) h, length_cons, named]
      rw [show ∀ n, m + 1 + n = m + (n + 1) by omega]
    · rw [named, filter_cons_of_neg (by simpa using hname)] at h ⊢
      rw [Loop.returns_of_next (keywordLoop_other hat hread hname), next_of_keywordAt]
      exact ih hle h
  | case3 p hlt =>
    rw [keywordsFrom_of_ge (Nat.not_lt.mp hlt), leftAt_of_ge (Nat.not_lt.mp hlt)]
    rfl

end

/-! ## The search -/

/-- The keyword is the one that holds the name of the record. -/
def IsRT (keywordName : Bytes) : Prop := keywordName.take KEYWORD_BYTE_SIZE = KEYWORD_RECORD_TYPE

instance (keywordName : Bytes) : Decidable (IsRT keywordName) :=
  inferInstanceAs (Decidable (_ = _))

/-- The matches in front of the walk: the `RT` keyword that holds the name. -/
def firstMatches (keywordName : Bytes) : Nat := if IsRT keywordName then 1 else 0

/-- The place of the name of a record, as the code takes it. -/
def nameOffset (recordOffset : UInt16) : UInt16 :=
  recordOffset + UInt16.ofNat RECORD_ADDR_BYTE_SIZE + UInt16.ofNat RT_SKIP_BYTES

/-- The keyword ends in the record, or the walk ends without it from the offset of 16 bits at
which it has left the record. -/
def WalkEnds (vpd : Eeprom) (keywordName : Bytes) (recordOffset index : UInt16) : Prop :=
  let recordEnd := recordEndAt vpd recordOffset
  let start := keywordsStart recordOffset
  let matching := named keywordName (keywordsFrom vpd recordEnd start)
  let more := index.toNat - firstMatches keywordName
  match matching[more]? with
  | some k => k.data + k.size ≤ recordEnd
  | none => EndsWithout vpd keywordName recordEnd (UInt16.ofNat (leftAt vpd recordEnd start))
      (more - matching.length)

/-- The condition on the VPD under which the search is right. -/
def WellWalked (vpd : Eeprom) (keywordName recordName : Bytes) (recordOffset index : UInt16) :
    Prop :=
  vpd.readable recordOffset.toNat RECORD_ADDR_BYTE_SIZE = true →
  vpd.readable (nameOffset recordOffset).toNat RECORD_BYTE_SIZE = true →
    if IsRT keywordName ∧ index = 0 then
      RT_SKIP_BYTES + RECORD_BYTE_SIZE ≤ recordSizeAt vpd recordOffset
    else
      vpd.image.read (nameOffset recordOffset).toNat RECORD_BYTE_SIZE
          = recordName.take RECORD_BYTE_SIZE →
        WalkEnds vpd keywordName recordOffset index

section

variable {vpd : Eeprom} {keywordName recordName : Bytes} {recordOffset index : UInt16}

/-- What is found of the keywords of a record, without the one in front. -/
theorem named_recordKeywords (h : ¬(IsRT keywordName ∧ index = 0)) :
    (named keywordName (recordKeywords vpd recordOffset))[index.toNat]?
      = (named keywordName (keywordsFrom vpd (recordEndAt vpd recordOffset)
          (keywordsStart recordOffset)))[index.toNat - firstMatches keywordName]? := by
  unfold recordKeywords firstMatches
  by_cases hrt : IsRT keywordName
  · have hne : index.toNat ≠ 0 := fun h0 => h ⟨hrt, UInt16.toNat_inj.mp h0⟩
    have hname : KEYWORD_RECORD_TYPE = keywordName.take KEYWORD_BYTE_SIZE := Eq.symm hrt
    rw [if_pos hrt, named, filter_cons_of_pos (by simpa using hname),
      show index.toNat = index.toNat - 1 + 1 by omega, getElem?_cons_succ]
    rfl
  · have hname : KEYWORD_RECORD_TYPE ≠ keywordName.take KEYWORD_BYTE_SIZE := fun h => hrt h.symm
    rw [if_neg hrt, named, filter_cons_of_neg (by simpa using hname)]
    rfl

theorem bounds_of_mem_keywordsFrom {recordEnd p : Nat} {k : Keyword}
    (h : k ∈ keywordsFrom vpd recordEnd p) : p < k.data ∧ k.data < 2 ^ 16 ∧ k.size < 2 ^ 16 := by
  induction p using keywordsFrom.induct vpd recordEnd with
  | case1 p hlt hk =>
    rw [keywordsFrom_of_none hk] at h
    exact absurd h not_mem_nil
  | case2 p hlt k' hk ih =>
    have hp := lt_data_of_keywordAt hk
    rw [keywordsFrom_of_some hlt hk] at h
    rcases mem_cons.mp h with rfl | hrest
    · exact ⟨hp, (size_lt_of_keywordAt hk).2, (size_lt_of_keywordAt hk).1⟩
    · obtain ⟨hdata, hrest⟩ := ih hrest
      exact ⟨by omega, hrest⟩
  | case3 p hlt =>
    rw [keywordsFrom_of_ge (Nat.not_lt.mp hlt)] at h
    exact absurd h not_mem_nil

theorem place_of_mem {recordEnd : Nat} {k : Keyword}
    (h : k ∈ keywordsFrom vpd recordEnd (keywordsStart recordOffset)) :
    recordOffset.toNat + RECORD_ADDR_BYTE_SIZE + RT_SKIP_BYTES ≤ k.data ∧
      recordOffset.toNat + (UInt16.ofNat k.data - recordOffset).toNat = k.data := by
  obtain ⟨hlow, hdata, -⟩ := bounds_of_mem_keywordsFrom h
  have hdata16 : (UInt16.ofNat k.data).toNat = k.data := UInt16.toNat_ofNat_of_lt' hdata
  have hbehind : recordOffset.toNat + RECORD_ADDR_BYTE_SIZE + RT_SKIP_BYTES ≤ k.data := by
    unfold keywordsStart at hlow
    omega
  refine ⟨hbehind, ?_⟩
  rw [UInt16.toNat_sub_of_le _ _ (by rw [UInt16.le_iff_toNat_le]; omega), hdata16]
  omega

theorem nameOffset_add (recordOffset : UInt16) :
    nameOffset recordOffset + UInt16.ofNat RECORD_BYTE_SIZE
      = UInt16.ofNat (keywordsStart recordOffset) := by
  rw [keywordsStart, UInt16.ofNat_add, UInt16.ofNat_add, UInt16.ofNat_add, UInt16.ofNat_toNat,
    nameOffset]

theorem loop_right_iff (h : ¬(IsRT keywordName ∧ index = 0)) :
    (∃ result, Loop.Returns (keywordLoop vpd keywordName recordOffset index
        (recordEndAt vpd recordOffset))
        (nameOffset recordOffset + UInt16.ofNat RECORD_BYTE_SIZE, firstMatches keywordName) result ∧
      ∀ found, result = .ok (some found) → found.IsKeyword vpd keywordName recordOffset index)
    ↔ WalkEnds vpd keywordName recordOffset index := by
  have hfirst : firstMatches keywordName ≤ index.toNat := by
    unfold firstMatches
    split
    · rename_i hrt
      have hne : index.toNat ≠ 0 := fun h0 => h ⟨hrt, UInt16.toNat_inj.mp h0⟩
      omega
    · exact Nat.zero_le _
  have hrecord := @named_recordKeywords vpd keywordName recordOffset index h
  rw [nameOffset_add]
  unfold WalkEnds Found.IsKeyword
  rw [hrecord]
  dsimp only
  cases hat : (named keywordName (keywordsFrom vpd (recordEndAt vpd recordOffset)
      (keywordsStart recordOffset)))[index.toNat - firstMatches keywordName]? with
  | some k =>
    have hmem : k ∈ keywordsFrom vpd (recordEndAt vpd recordOffset) (keywordsStart recordOffset) :=
      (mem_filter.mp (mem_of_getElem? hat)).1
    have hsize16 : (UInt16.ofNat k.size).toNat = k.size :=
      UInt16.toNat_ofNat_of_lt' (bounds_of_mem_keywordsFrom hmem).2.2
    obtain ⟨hbehind, hplace⟩ := place_of_mem hmem
    constructor
    · rintro ⟨result, hreturns, hfound⟩
      rw [returns_of_named hfirst hat] at hreturns
      obtain ⟨k', hk', -, -, -, hend⟩ := hfound _ hreturns
      cases hk'
      exact hend
    · intro hend
      refine ⟨_, (returns_of_named hfirst hat _).mpr rfl, fun found hfound => ?_⟩
      cases hfound
      exact ⟨k, rfl, hsize16, hplace, hbehind, hend⟩
  | none =>
    have hlen := List.getElem?_eq_none_iff.mp hat
    have hindex : firstMatches keywordName + (named keywordName (keywordsFrom vpd
          (recordEndAt vpd recordOffset) (keywordsStart recordOffset))).length
        + (index.toNat - firstMatches keywordName - (named keywordName (keywordsFrom vpd
          (recordEndAt vpd recordOffset) (keywordsStart recordOffset))).length)
        = index.toNat := by omega
    dsimp only
    rw [endsWithout_iff hindex]
    constructor
    · rintro ⟨result, hreturns, hfound⟩
      refine ⟨result, (returns_of_not_named hfirst hat result).mp hreturns, fun found h => ?_⟩
      obtain ⟨k, hk, -⟩ := hfound found h
      cases hk
    · rintro ⟨result, hreturns, hlost⟩
      exact ⟨result, (returns_of_not_named hfirst hat result).mpr hreturns,
        fun found h => absurd h (hlost found)⟩

/-- What the search makes of the end of its loop. -/
def afterLoop (recordOffset index : UInt16) (result : Except Errl (Option Found)) :
    Except Errl Found := do
  match ← result with
  | some found => .ok found
  | none => .error (.VPD_KEYWORD_NOT_FOUND recordOffset index)

theorem afterLoop_eq_ok {result : Except Errl (Option Found)} {found : Found} :
    afterLoop recordOffset index result = .ok found ↔ result = .ok (some found) := by
  unfold afterLoop
  rcases result with err | _ | found'
  · exact iff_of_false nofun nofun
  · exact iff_of_false nofun nofun
  · change Except.ok found' = .ok found ↔ _
    rw [Except.ok.injEq, Except.ok.injEq, Option.some.injEq]

theorem findKeywordAddr_of_not_size (rounds : Nat)
    (h : vpd.readable recordOffset.toNat RECORD_ADDR_BYTE_SIZE ≠ true) :
    ∃ err, findKeywordAddr rounds vpd keywordName recordName recordOffset index
      = some (.error err) := by
  unfold findKeywordAddr fetchData
  rw [if_neg h]
  exact ⟨_, rfl⟩

section

variable (hsize : vpd.readable recordOffset.toNat RECORD_ADDR_BYTE_SIZE = true)
include hsize

theorem findKeywordAddr_of_not_name (rounds : Nat)
    (h : vpd.readable (nameOffset recordOffset).toNat RECORD_BYTE_SIZE ≠ true) :
    ∃ err, findKeywordAddr rounds vpd keywordName recordName recordOffset index
      = some (.error err) := by
  have hfetch : fetchData vpd (nameOffset recordOffset).toNat RECORD_BYTE_SIZE
      = .error (.eeprom (nameOffset recordOffset).toNat RECORD_BYTE_SIZE) := by
    rw [fetchData, if_neg h]
  unfold findKeywordAddr
  rw [fetchData, if_pos hsize]
  dsimp only
  rw [← nameOffset, hfetch]
  split
  · exact ⟨_, rfl⟩
  · exact ⟨_, rfl⟩

variable (hname : vpd.readable (nameOffset recordOffset).toNat RECORD_BYTE_SIZE = true)
include hname

theorem findKeywordAddr_of_RT (rounds : Nat) (h : IsRT keywordName ∧ index = 0) :
    findKeywordAddr rounds vpd keywordName recordName recordOffset index
      = some (.ok ⟨UInt16.ofNat RECORD_BYTE_SIZE, nameOffset recordOffset - recordOffset⟩) := by
  unfold findKeywordAddr
  rw [fetchData, if_pos hsize]
  dsimp only
  rw [← nameOffset, fetchData, if_pos hname]
  exact if_pos h

variable (h : ¬(IsRT keywordName ∧ index = 0))
include h

theorem findKeywordAddr_of_mismatch (rounds : Nat)
    (hrecord : vpd.image.read (nameOffset recordOffset).toNat RECORD_BYTE_SIZE
      ≠ recordName.take RECORD_BYTE_SIZE) :
    ∃ err, findKeywordAddr rounds vpd keywordName recordName recordOffset index
      = some (.error err) := by
  unfold findKeywordAddr
  rw [fetchData, if_pos hsize]
  dsimp only
  rw [← nameOffset, fetchData, if_pos hname]
  refine ⟨.VPD_RECORD_MISMATCH (nameOffset recordOffset + UInt16.ofNat RECORD_BYTE_SIZE) recordOffset
    (recordName.take RECORD_BYTE_SIZE)
    (vpd.image.read (nameOffset recordOffset).toNat RECORD_BYTE_SIZE), (if_neg h).trans ?_⟩
  exact if_pos hrecord

theorem findKeywordAddr_of_match (rounds : Nat)
    (hrecord : vpd.image.read (nameOffset recordOffset).toNat RECORD_BYTE_SIZE
      = recordName.take RECORD_BYTE_SIZE) :
    findKeywordAddr rounds vpd keywordName recordName recordOffset index
      = (Loop.run (keywordLoop vpd keywordName recordOffset index
          (recordEndAt vpd recordOffset)) rounds
          (nameOffset recordOffset + UInt16.ofNat RECORD_BYTE_SIZE, firstMatches keywordName)).map
          (afterLoop recordOffset index) := by
  unfold findKeywordAddr
  rw [fetchData, if_pos hsize]
  dsimp only
  rw [← nameOffset, fetchData, if_pos hname]
  refine (if_neg h).trans ?_
  exact if_neg (not_not.mpr hrecord)

end

theorem findKeywordAddr_of_le {m n : Nat} (hle : m ≤ n) {result : Except Errl Found}
    (h : findKeywordAddr m vpd keywordName recordName recordOffset index = some result) :
    findKeywordAddr n vpd keywordName recordName recordOffset index = some result := by
  unfold findKeywordAddr at h ⊢
  cases hsize : fetchData vpd recordOffset.toNat RECORD_ADDR_BYTE_SIZE with
  | error err =>
    rw [hsize] at h
    exact h
  | ok size =>
    rw [hsize] at h
    dsimp only at h ⊢
    by_cases hrt : keywordName.take KEYWORD_BYTE_SIZE = KEYWORD_RECORD_TYPE ∧ index = 0
    · rw [if_pos hrt] at h ⊢
      exact h
    rw [if_neg hrt] at h ⊢
    rw [← nameOffset] at h ⊢
    cases hname : fetchData vpd (nameOffset recordOffset).toNat RECORD_BYTE_SIZE with
    | error err =>
      rw [hname] at h
      exact h
    | ok record =>
      rw [hname] at h
      dsimp only at h ⊢
      by_cases hrecord : record ≠ recordName.take RECORD_BYTE_SIZE
      · rw [if_pos hrecord] at h ⊢
        exact h
      · rw [if_neg hrecord] at h ⊢
        obtain ⟨looped, hrun, rfl⟩ := Option.map_eq_some_iff.mp h
        rw [Loop.run_of_le hle hrun, Option.map_some]

theorem isKeyword_RT_iff (h : IsRT keywordName ∧ index = 0) :
    Found.IsKeyword ⟨UInt16.ofNat RECORD_BYTE_SIZE, nameOffset recordOffset - recordOffset⟩ vpd
        keywordName recordOffset index
      ↔ RT_SKIP_BYTES + RECORD_BYTE_SIZE ≤ recordSizeAt vpd recordOffset := by
  obtain ⟨hrt, rfl⟩ := h
  have hoff : nameOffset recordOffset - recordOffset = 5 := by
    unfold nameOffset
    rw [show UInt16.ofNat RECORD_ADDR_BYTE_SIZE = 2 from rfl,
      show UInt16.ofNat RT_SKIP_BYTES = 3 from rfl]
    grind
  have hname : KEYWORD_RECORD_TYPE = keywordName.take KEYWORD_BYTE_SIZE := Eq.symm hrt
  have hat : (named keywordName (recordKeywords vpd recordOffset))[(0 : UInt16).toNat]?
      = some ⟨KEYWORD_RECORD_TYPE, recordOffset.toNat + RECORD_ADDR_BYTE_SIZE + RT_SKIP_BYTES,
          RECORD_BYTE_SIZE⟩ := by
    rw [recordKeywords, named, filter_cons_of_pos (by simpa using hname)]
    rfl
  unfold Found.IsKeyword
  rw [hat, hoff, recordEndAt]
  constructor
  · rintro ⟨k, hk, -, -, -, hend⟩
    cases hk
    dsimp only at hend
    omega
  · intro hend
    exact ⟨_, rfl, rfl, rfl, Nat.le_refl _, by dsimp only; omega⟩

/-- The search is right exactly for the VPDs that are walked well. -/
theorem findKeywordAddr_right_iff (vpd : Eeprom) (keywordName recordName : Bytes)
    (recordOffset index : UInt16) :
    Right vpd keywordName recordName recordOffset index
      ↔ WellWalked vpd keywordName recordName recordOffset index := by
  have hfails (h : ∀ rounds, ∃ err, findKeywordAddr rounds vpd keywordName recordName recordOffset
      index = some (.error err)) : Right vpd keywordName recordName recordOffset index := by
    obtain ⟨err, herr⟩ := h 0
    exact ⟨0, .error err, herr, nofun⟩
  unfold WellWalked
  by_cases hsize : vpd.readable recordOffset.toNat RECORD_ADDR_BYTE_SIZE = true
  swap
  · exact iff_of_true (hfails fun rounds => findKeywordAddr_of_not_size rounds hsize)
      (fun h => absurd h hsize)
  by_cases hname : vpd.readable (nameOffset recordOffset).toNat RECORD_BYTE_SIZE = true
  swap
  · exact iff_of_true (hfails fun rounds => findKeywordAddr_of_not_name hsize rounds hname)
      (fun _ h => absurd h hname)
  rw [imp_iff_right hsize, imp_iff_right hname]
  by_cases hrt : IsRT keywordName ∧ index = 0
  · rw [if_pos hrt, ← @isKeyword_RT_iff vpd keywordName recordOffset index hrt]
    have hfound := @findKeywordAddr_of_RT vpd keywordName recordName recordOffset index hsize hname
    constructor
    · rintro ⟨rounds, result, hresult, hright⟩
      rw [hfound rounds hrt, Option.some.injEq] at hresult
      exact hright _ hresult.symm
    · intro hkeyword
      refine ⟨0, _, hfound 0 hrt, fun found h => ?_⟩
      cases h
      exact hkeyword
  rw [if_neg hrt]
  by_cases hrecord : vpd.image.read (nameOffset recordOffset).toNat RECORD_BYTE_SIZE
      = recordName.take RECORD_BYTE_SIZE
  swap
  · exact iff_of_true (hfails fun rounds =>
      findKeywordAddr_of_mismatch hsize hname hrt rounds hrecord) (fun h => absurd h hrecord)
  rw [imp_iff_right hrecord, ← loop_right_iff hrt]
  unfold Right
  constructor
  · rintro ⟨rounds, result, hresult, hright⟩
    rw [findKeywordAddr_of_match hsize hname hrt rounds hrecord, Option.map_eq_some_iff] at hresult
    obtain ⟨looped, hrun, rfl⟩ := hresult
    exact ⟨looped, ⟨rounds, hrun⟩, fun found h => hright found (afterLoop_eq_ok.mpr h)⟩
  · rintro ⟨looped, ⟨rounds, hrun⟩, hright⟩
    refine ⟨rounds, afterLoop recordOffset index looped, ?_,
      fun found h => hright found (afterLoop_eq_ok.mp h)⟩
    rw [findKeywordAddr_of_match hsize hname hrt rounds hrecord, hrun, Option.map_some]

end

/-- A record `VINI` of eleven bytes behind its size.  The last of them is the size of the
keyword `HW`, which is 200. -/
def oversizedVpd : Eeprom where
  image := fun i =>
    [0x0B, 0x00, 0x52, 0x54, 0x04, 0x56, 0x49, 0x4E, 0x49, 0x48, 0x57, 0xC8].getD i 0
  readable := fun _ _ => true

/-- The keyword is found, and its data is behind the record. -/
theorem oversized_keyword_found :
    ¬Right oversizedVpd [0x48, 0x57] [0x56, 0x49, 0x4E, 0x49] 0 0 := by
  rintro ⟨rounds, result, hresult, hright⟩
  cases rounds with
  | zero => cases hresult
  | succ rounds =>
    have hfound : findKeywordAddr (rounds + 1) oversizedVpd [0x48, 0x57] [0x56, 0x49, 0x4E, 0x49]
        0 0 = some (.ok ⟨200, 12⟩) := rfl
    rw [hfound, Option.some.injEq] at hresult
    obtain ⟨k, -, hsize, hdata, -, hend⟩ := hright _ hresult.symm
    have hrecord : recordEndAt oversizedVpd 0 = 13 := rfl
    rw [hrecord, ← hsize, ← hdata] at hend
    exact absurd hend (by decide)

end Hostboot.Vpd
