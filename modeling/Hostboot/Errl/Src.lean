import Hostboot.Errl.Sections
import Hostboot.Errl.FruCallouts

/-!
# The SRC section of an error log

The primary SRC section has a fixed part, `pelSRCSection_t`, and the FRU callouts
behind it.  `flatten` clears the place of the section, writes the header of the
section, notes in the header how long the section is with its callouts, writes
the fixed part, and cuts the callouts to ten before it writes them.

The length thus reaches the log with the next flatten only.  An entry has no
callouts before it is committed, and `commit` flattens the section once after it
has added them; `covers_flattened` says that the length covers the callouts from
then on.  It may be more than that, by the callouts that were cut, and
`unflattenFruCallouts` takes no harm from that.

This is the build with `CONFIG_BUILD_FULL_PEL`.
-/

namespace Hostboot.Errl.Pel

open Hostboot.Lib Packed

/-! ## The model -/

def ERRL_SID_PRIMARY_SRC : UInt16 := 0x5053

def EPUB_FIRMWARE_SUBSYS : UInt8 := 0x80

/-- The bits in word 5. -/
def DECONFIG_BIT : UInt32 := 0x02000000
def GARD_BIT : UInt32 := 0x01000000
def ACK_BIT : UInt32 := 0x00200000

/-- `pelSRCSection_t`, without the fields that stay zero. -/
structure PelSrcSection where
  sectionheader : ErrlSctnHdr
  ver : UInt8
  flags : UInt8
  wordcount : UInt8
  reserved1 : UInt16
  srcLength : UInt16
  word2 : UInt32
  moduleId : UInt8
  word4 : UInt32
  word5 : UInt32
  word6 : UInt64
  word8 : UInt64
  srcString : Bytes

namespace PelSrcSection

/-- The record in memory. -/
def bytes (p : PelSrcSection) : Bytes :=
  p.sectionheader.bytes ++ ([p.ver] ++ ([p.flags] ++ ([0] ++ ([p.wordcount] ++ (u16 p.reserved1 ++
    (u16 p.srcLength ++ (u32 p.word2 ++ (zeros 2 ++ ([p.moduleId] ++ ([0] ++ (u32 p.word4 ++
      (u32 p.word5 ++ (u64 p.word6 ++ (u64 p.word8 ++ p.srcString))))))))))))))

/-- The record, read field by field. -/
def read : Reader PelSrcSection := do
  let sectionheader ← ErrlSctnHdr.read
  let ver ← Reader.byte
  let flags ← Reader.byte
  let _ ← Reader.byte
  let wordcount ← Reader.byte
  let reserved1 ← Reader.u16
  let srcLength ← Reader.u16
  let word2 ← Reader.u32
  let _ ← Reader.array 2
  let moduleId ← Reader.byte
  let _ ← Reader.byte
  let word4 ← Reader.u32
  let word5 ← Reader.u32
  let word6 ← Reader.u64
  let word8 ← Reader.u64
  let srcString ← Reader.array 32
  pure ⟨sectionheader, ver, flags, wordcount, reserved1, srcLength, word2, moduleId, word4, word5,
    word6, word8, srcString⟩

theorem length_bytes (p : PelSrcSection) (h : p.srcString.length = 32) : p.bytes.length = 80 := by
  simp [bytes, h]

theorem reads (p : PelSrcSection) (h : p.srcString.length = 32) : Reads read p.bytes p :=
  p.sectionheader.reads.bind <| (Reads.byte p.ver).bind <| (Reads.byte p.flags).bind <|
    (Reads.byte 0).bind <| (Reads.byte p.wordcount).bind <| (Reads.u16 p.reserved1).bind <|
    (Reads.u16 p.srcLength).bind <| (Reads.u32 p.word2).bind <|
    (Reads.array (length_zeros 2)).bind <| (Reads.byte p.moduleId).bind <| (Reads.byte 0).bind <|
    (Reads.u32 p.word4).bind <| (Reads.u32 p.word5).bind <| (Reads.u64 p.word6).bind <|
    (Reads.u64 p.word8).bind <| (Reads.array h).bind_nil <| Reads.pure _

end PelSrcSection

/-- A digit as `sprintf` writes it with `%X`. -/
def hexDigit (n : Nat) : UInt8 :=
  if n < 10 then '0'.toUInt8 + UInt8.ofNat n else 'A'.toUInt8 + UInt8.ofNat (n - 10)

/-- A number of 32 bits as `sprintf` writes it with `%08X`. -/
def hex8 (n : Nat) : Bytes := (List.range 8).map fun i => hexDigit (n / 16 ^ (7 - i) % 16)

def aschex2bin (c : UInt8) : Nat :=
  if 'a'.toUInt8 ≤ c ∧ c ≤ 'f'.toUInt8 then (c + 10 - 'a'.toUInt8).toNat
  else if 'A'.toUInt8 ≤ c ∧ c ≤ 'F'.toUInt8 then (c + 10 - 'A'.toUInt8).toNat
  else if '0'.toUInt8 ≤ c ∧ c ≤ '9'.toUInt8 then (c - '0'.toUInt8).toNat
  else c.toNat

structure ErrlSrc where
  header : ErrlSctnHdr
  srcType : UInt8
  modId : UInt8
  reasonCode : UInt16
  ssid : UInt8
  user1 : UInt64
  user2 : UInt64
  deconfig : Bool
  gard : Bool
  progressCode : UInt32
  coVec : List FruCallOutEntry
deriving DecidableEq

namespace ErrlSrc

/-- The constructor.  The progress code is that of the node, or zero. -/
def new (srcType modId : UInt8) (reasonCode : UInt16) (user1 user2 : UInt64)
    (progressCode : UInt32) : ErrlSrc where
  header := .new ERRL_SID_PRIMARY_SRC 72 1 1 0
  srcType := srcType
  modId := modId
  reasonCode := reasonCode
  ssid := EPUB_FIRMWARE_SUBSYS
  user1 := user1
  user2 := user2
  deconfig := false
  gard := false
  progressCode := progressCode
  coVec := []

def flatSize (s : ErrlSrc) : Nat :=
  80 + if s.coVec = [] then 0 else fruCalloutFlatSize s.coVec

/-- `srcLength` of the flat section. -/
def srcLength (s : ErrlSrc) : UInt16 :=
  if s.coVec = [] then 72 else 72 + UInt16.ofNat (fruCalloutFlatSize s.coVec)

/-- `l_u32`, the number in the text of the SRC. -/
def refcode (s : ErrlSrc) : Nat :=
  (s.srcType.toNat <<< 24) ||| (s.ssid.toNat <<< 16) ||| s.reasonCode.toNat

/-- The fixed part of the flat section. -/
def psrc (s : ErrlSrc) : PelSrcSection where
  sectionheader := s.header
  ver := 2
  flags := if s.coVec = [] then 0 else 1
  wordcount := 9
  reserved1 := s.reasonCode
  srcLength := s.srcLength
  word2 := 0x000000E0
  moduleId := s.modId
  word4 := s.progressCode
  word5 := (if s.deconfig then DECONFIG_BIT else 0) ||| (if s.gard then GARD_BIT else 0) ||| ACK_BIT
  word6 := s.user1
  word8 := s.user2
  srcString := hex8 s.refcode ++ List.replicate 24 ' '.toUInt8

/-- The section after a flatten: the length in the header is that of the section
with all its callouts, and the callouts are cut. -/
def flattened (s : ErrlSrc) : ErrlSrc :=
  { s with
    header :=
      if s.coVec = [] then s.header else { s.header with slen := s.srcLength + 8 }
    coVec := maxFruCallouts s.coVec }

def flatten (stack : Nat → UInt8) (s : ErrlSrc) (m : Mem) (p cb : Nat) : Nat × Mem × ErrlSrc :=
  if cb < s.flatSize then (0, m, s)
  else
    let m := m.write p (zeros s.flatSize)
    let m := m.write p s.psrc.bytes
    let m := m.write (p + 80) (flattenFruCallouts stack s.flattened.coVec)
    (s.flattened.flatSize, m, s.flattened)

/-- What `unflatten` takes from the fixed part. -/
def readFixed (s : ErrlSrc) (p : PelSrcSection) : ErrlSrc :=
  let digit (i : Nat) : Nat := aschex2bin (p.srcString.getD i 0)
  { s with
    header := p.sectionheader
    srcType := UInt8.ofNat (16 * digit 0 + digit 1)
    modId := p.moduleId
    reasonCode := p.reserved1
    ssid := UInt8.ofNat (16 * digit 2 + digit 3)
    user1 := p.word6
    user2 := p.word8
    progressCode := p.word4
    deconfig := s.deconfig || p.word5 &&& DECONFIG_BIT != 0
    gard := s.gard || p.word5 &&& GARD_BIT != 0 }

/-- `unflatten`.  The length of the callouts is a difference of 64-bit numbers. -/
def unflatten (s : ErrlSrc) (bs : Bytes) : Option (ErrlSrc × Nat) := do
  let (p, _) ← PelSrcSection.read bs
  let s := s.readFixed p
  let baseSrcSize := s.flatSize
  if s.header.slen.toNat = baseSrcSize then pure (s, s.flatSize)
  else
    let coVec ← unflattenFruCallouts s.coVec (bs.drop baseSrcSize)
      ((s.header.slen.toNat + 2 ^ 64 - baseSrcSize) % 2 ^ 64)
    let s := { s with coVec := coVec }
    pure (s, s.flatSize)

/-- The section in the log. -/
def bytes (stack : Nat → UInt8) (s : ErrlSrc) : Bytes :=
  s.psrc.bytes ++ flattenFruCallouts stack (maxFruCallouts s.coVec)

/-! ## The sections of an entry -/

/-- The length in the header covers the callouts that are written. -/
def Covers (s : ErrlSrc) : Prop :=
  (s.coVec = [] → s.header.slen = 80) ∧
    (s.coVec ≠ [] → 80 + fruCalloutFlatSize (maxFruCallouts s.coVec) ≤ s.header.slen.toNat)

instance (s : ErrlSrc) : Decidable s.Covers := inferInstanceAs (Decidable (_ ∧ _))

/-- What holds of the section of every entry. -/
structure Ok (s : ErrlSrc) : Prop where
  built : ∀ c ∈ s.coVec, c.Built
  apart : Apart s.coVec
  covers : s.Covers

theorem maxFruCallouts_sublist (coVec : List FruCallOutEntry) :
    (maxFruCallouts coVec).Sublist coVec := List.take_sublist _ _

theorem maxFruCallouts_idem (coVec : List FruCallOutEntry) :
    maxFruCallouts (maxFruCallouts coVec) = maxFruCallouts coVec := by
  rw [maxFruCallouts, maxFruCallouts, List.take_take, Nat.min_self]

theorem maxFruCallouts_eq_nil {coVec : List FruCallOutEntry} :
    maxFruCallouts coVec = [] ↔ coVec = [] := by
  cases coVec <;> simp [maxFruCallouts, MAX_FRU_CALLOUTS]

theorem fruCalloutFlatSize_max_le (coVec : List FruCallOutEntry) :
    fruCalloutFlatSize (maxFruCallouts coVec) ≤ fruCalloutFlatSize coVec := by
  have hsplit : ((coVec.take MAX_FRU_CALLOUTS).map FruCallOutEntry.flatSize).sum +
      ((coVec.drop MAX_FRU_CALLOUTS).map FruCallOutEntry.flatSize).sum =
        (coVec.map FruCallOutEntry.flatSize).sum := by
    rw [← List.sum_append, ← List.map_append, List.take_append_drop]
  rw [fruCalloutFlatSize, fruCalloutFlatSize, maxFruCallouts]
  omega

theorem covers_flattened {s : ErrlSrc} (hfits : 80 + fruCalloutFlatSize s.coVec < 65536)
    (hempty : s.coVec = [] → s.header.slen = 80) : s.flattened.Covers := by
  constructor
  · intro hnil
    have hco := maxFruCallouts_eq_nil.1 hnil
    rw [flattened]
    simp only [if_pos hco]
    exact hempty hco
  · intro hne
    have hco : s.coVec ≠ [] := fun hco => hne (maxFruCallouts_eq_nil.2 hco)
    have hmax := fruCalloutFlatSize_max_le s.coVec
    have hslen : (s.srcLength + 8).toNat = 80 + fruCalloutFlatSize s.coVec := by
      rw [srcLength, if_neg hco, UInt16.toNat_add, UInt16.toNat_add, UInt16.toNat_ofNat']
      show (((72 : Nat) + _) % _ + 8) % _ = _
      omega
    rw [flattened]
    simp only [if_neg hco, maxFruCallouts_idem]
    omega

theorem ok_new (srcType modId : UInt8) (reasonCode : UInt16) (user1 user2 : UInt64)
    (progressCode : UInt32) : (new srcType modId reasonCode user1 user2 progressCode).Ok :=
  ⟨fun _ hc => absurd hc List.not_mem_nil, .nil, fun _ => rfl, fun h => absurd rfl h⟩

theorem ok_flattened {s : ErrlSrc} (hbuilt : ∀ c ∈ s.coVec, c.Built) (hapart : Apart s.coVec)
    (hfits : 80 + fruCalloutFlatSize s.coVec < 65536)
    (hempty : s.coVec = [] → s.header.slen = 80) : s.flattened.Ok where
  built c hc := hbuilt c ((maxFruCallouts_sublist s.coVec).subset hc)
  apart := hapart.sublist (maxFruCallouts_sublist s.coVec)
  covers := covers_flattened hfits hempty

theorem foldl_addFruCallout_ne_nil {cs coVec : List FruCallOutEntry} (h : coVec ≠ []) :
    cs.foldl addFruCallout coVec ≠ [] := by
  induction cs generalizing coVec with
  | nil => exact h
  | cons c cs ih =>
    refine ih ?_
    unfold addFruCallout
    dsimp only
    split
    · rename_i hdrop
      fun_induction checkForDuplicateCallout c coVec with
      | case1 => exact absurd rfl h
      | case2 => exact List.cons_ne_nil _ _
      | case3 => exact absurd hdrop (by simp)
      | case4 => exact absurd hdrop (by simp)
      | case5 => exact List.cons_ne_nil _ _
      | case6 => exact List.cons_ne_nil _ _
      | case7 => exact List.cons_ne_nil _ _
    · intro hnil
      have hperm := Util.QSort.sort_perm (fun a b => decide (b.priority < a.priority))
        ((checkForDuplicateCallout c coVec).2 ++ [c])
      rw [hnil] at hperm
      exact absurd hperm.nil_eq (by simp)

theorem forall_foldl_addFruCallout {P : FruCallOutEntry → Prop} {cs coVec : List FruCallOutEntry}
    (h : ∀ c ∈ coVec, P c) (hcs : ∀ c ∈ cs, P c) : ∀ c ∈ cs.foldl addFruCallout coVec, P c := by
  induction cs generalizing coVec with
  | nil => exact h
  | cons c cs ih =>
    exact ih (forall_addFruCallout h (hcs c List.mem_cons_self))
      fun d hd => hcs d (List.mem_cons_of_mem c hd)

theorem apart_foldl_addFruCallout {cs coVec : List FruCallOutEntry} (h : Apart coVec) :
    Apart (cs.foldl addFruCallout coVec) := by
  induction cs generalizing coVec with
  | nil => exact h
  | cons c cs ih => exact ih (h.addFruCallout c)

/-! ## The round trip -/

end ErrlSrc

theorem aschex2bin_hexDigit {n : Nat} (h : n < 16) : aschex2bin (hexDigit n) = n := by
  have hall : ∀ n < 16, aschex2bin (hexDigit n) = n := by decide
  exact hall n h

theorem aschex2bin_digits (n k : Nat) :
    16 * aschex2bin (hexDigit (n / 16 ^ (k + 1) % 16)) + aschex2bin (hexDigit (n / 16 ^ k % 16)) =
      n / 16 ^ k % 256 := by
  rw [aschex2bin_hexDigit (Nat.mod_lt _ (by decide)), aschex2bin_hexDigit (Nat.mod_lt _ (by decide)),
    Nat.pow_succ, ← Nat.div_div_eq_div_mul]
  omega

namespace ErrlSrc

theorem refcode_eq (s : ErrlSrc) :
    s.refcode = s.srcType.toNat * 2 ^ 24 + s.ssid.toNat * 2 ^ 16 + s.reasonCode.toNat := by
  have hreason : s.reasonCode.toNat < 2 ^ 16 := s.reasonCode.toNat_lt
  have hssid : s.ssid.toNat < 2 ^ 8 := s.ssid.toNat_lt
  have hlow : s.ssid.toNat <<< 16 ||| s.reasonCode.toNat =
      s.ssid.toNat * 2 ^ 16 + s.reasonCode.toNat := by
    rw [← Nat.shiftLeft_add_eq_or_of_lt hreason, Nat.shiftLeft_eq]
  have hlt : s.ssid.toNat * 2 ^ 16 + s.reasonCode.toNat < 2 ^ 24 := by omega
  rw [refcode, Nat.or_assoc, hlow, ← Nat.shiftLeft_add_eq_or_of_lt hlt, Nat.shiftLeft_eq]
  omega

theorem srcType_of_digits (s : ErrlSrc) :
    UInt8.ofNat (16 * aschex2bin (s.psrc.srcString.getD 0 0) +
      aschex2bin (s.psrc.srcString.getD 1 0)) = s.srcType := by
  have hdigits := aschex2bin_digits s.refcode 6
  have htype : s.refcode / 16 ^ 6 % 256 = s.srcType.toNat := by
    have hreason : s.reasonCode.toNat < 2 ^ 16 := s.reasonCode.toNat_lt
    have hssid : s.ssid.toNat < 2 ^ 8 := s.ssid.toNat_lt
    have hlt : s.srcType.toNat < 2 ^ 8 := s.srcType.toNat_lt
    rw [refcode_eq]
    omega
  show UInt8.ofNat (16 * aschex2bin (hexDigit (s.refcode / 16 ^ 7 % 16)) +
    aschex2bin (hexDigit (s.refcode / 16 ^ 6 % 16))) = _
  rw [hdigits, htype, UInt8.ofNat_toNat]

theorem ssid_of_digits (s : ErrlSrc) :
    UInt8.ofNat (16 * aschex2bin (s.psrc.srcString.getD 2 0) +
      aschex2bin (s.psrc.srcString.getD 3 0)) = s.ssid := by
  have hdigits := aschex2bin_digits s.refcode 4
  have hssid' : s.refcode / 16 ^ 4 % 256 = s.ssid.toNat := by
    have hreason : s.reasonCode.toNat < 2 ^ 16 := s.reasonCode.toNat_lt
    have hssid : s.ssid.toNat < 2 ^ 8 := s.ssid.toNat_lt
    rw [refcode_eq]
    omega
  show UInt8.ofNat (16 * aschex2bin (hexDigit (s.refcode / 16 ^ 5 % 16)) +
    aschex2bin (hexDigit (s.refcode / 16 ^ 4 % 16))) = _
  rw [hdigits, hssid', UInt8.ofNat_toNat]

theorem deconfig_of_word5 (s : ErrlSrc) : (s.psrc.word5 &&& DECONFIG_BIT != 0) = s.deconfig := by
  have hall : ∀ deconfig gard : Bool, (((if deconfig then DECONFIG_BIT else 0) |||
      (if gard then GARD_BIT else 0) ||| ACK_BIT) &&& DECONFIG_BIT != 0) = deconfig := by decide
  exact hall s.deconfig s.gard

theorem gard_of_word5 (s : ErrlSrc) : (s.psrc.word5 &&& GARD_BIT != 0) = s.gard := by
  have hall : ∀ deconfig gard : Bool, (((if deconfig then DECONFIG_BIT else 0) |||
      (if gard then GARD_BIT else 0) ||| ACK_BIT) &&& GARD_BIT != 0) = gard := by decide
  exact hall s.deconfig s.gard

theorem readFixed_psrc (s : ErrlSrc) {s0 : ErrlSrc} (hco : s0.coVec = [])
    (hdeconfig : s0.deconfig = false) (hgard : s0.gard = false) :
    s0.readFixed s.psrc = { s with coVec := [] } := by
  unfold readFixed
  dsimp only
  rw [hco, hdeconfig, hgard, Bool.false_or, Bool.false_or, srcType_of_digits, ssid_of_digits,
    deconfig_of_word5, gard_of_word5]
  rfl

theorem length_srcString (s : ErrlSrc) : s.psrc.srcString.length = 32 := rfl

theorem length_flattenFruCallouts (stack : Nat → UInt8) {l : List FruCallOutEntry}
    (h : ∀ c ∈ l, c.Built) (hne : l ≠ []) :
    (flattenFruCallouts stack l).length = fruCalloutFlatSize l := by
  rw [flattenFruCallouts, if_neg hne, List.length_append, List.length_append,
    length_flatMap_bytes stack h, length_u16, fruCalloutFlatSize]
  rfl

theorem length_bytes (stack : Nat → UInt8) {s : ErrlSrc} (h : ∀ c ∈ s.coVec, c.Built) :
    (s.bytes stack).length = s.flattened.flatSize := by
  have hbuilt : ∀ c ∈ maxFruCallouts s.coVec, c.Built := fun c hc =>
    h c ((maxFruCallouts_sublist s.coVec).subset hc)
  rw [bytes, List.length_append, s.psrc.length_bytes s.length_srcString, flatSize, flattened]
  by_cases hco : maxFruCallouts s.coVec = []
  · rw [if_pos hco, hco]
    rfl
  · rw [if_neg hco, length_flattenFruCallouts stack hbuilt hco]

/-- What a section that was read back has in common with the one that was
written. -/
structure Returns (s s' : ErrlSrc) : Prop where
  header : s'.header = s.header
  srcType : s'.srcType = s.srcType
  modId : s'.modId = s.modId
  reasonCode : s'.reasonCode = s.reasonCode
  ssid : s'.ssid = s.ssid
  user1 : s'.user1 = s.user1
  user2 : s'.user2 = s.user2
  deconfig : s'.deconfig = s.deconfig
  gard : s'.gard = s.gard
  progressCode : s'.progressCode = s.progressCode
  callouts : s'.coVec.Perm ((maxFruCallouts s.coVec).map FruCallOutEntry.recoded)
  byPriority : ByPriority s'.coVec

/-- A section is read back into one that has no callouts and no flag set. -/
theorem unflatten_bytes (stack : Nat → UInt8) {s s0 : ErrlSrc} (h : s.Ok) (hco : s0.coVec = [])
    (hdeconfig : s0.deconfig = false) (hgard : s0.gard = false) (rest : Bytes) :
    ∃ s', s0.unflatten (s.bytes stack ++ rest) = some (s', (s.bytes stack).length) ∧
      s.Returns s' := by
  have hbuilt : ∀ c ∈ maxFruCallouts s.coVec, c.Built := fun c hc =>
    h.built c ((maxFruCallouts_sublist s.coVec).subset hc)
  have hread : PelSrcSection.read (s.bytes stack ++ rest) =
      some (s.psrc, flattenFruCallouts stack (maxFruCallouts s.coVec) ++ rest) := by
    rw [bytes, List.append_assoc]
    exact s.psrc.reads s.length_srcString _
  have hfixed := s.readFixed_psrc hco hdeconfig hgard
  have hbase : ({ s with coVec := [] } : ErrlSrc).flatSize = 80 := rfl
  rw [unflatten, hread, length_bytes stack h.built]
  simp only [Option.bind_eq_bind, Option.bind_some, hfixed, hbase]
  by_cases hempty : s.coVec = []
  · have hslen : s.header.slen.toNat = 80 := by
      rw [h.covers.1 hempty]
      rfl
    have hsize : s.flattened.flatSize = 80 := by
      rw [flatSize, flattened, hempty]
      rfl
    have hnone : maxFruCallouts s.coVec = [] := maxFruCallouts_eq_nil.2 hempty
    rw [if_pos hslen, hsize]
    refine ⟨_, rfl, rfl, rfl, rfl, rfl, rfl, rfl, rfl, rfl, rfl, rfl, ?_, .nil⟩
    rw [hnone]
    exact .refl _
  · have hmax : maxFruCallouts s.coVec ≠ [] := fun hnil => hempty (maxFruCallouts_eq_nil.1 hnil)
    have hcovers := h.covers.2 hempty
    have hpos : 4 ≤ fruCalloutFlatSize (maxFruCallouts s.coVec) := by
      rw [fruCalloutFlatSize]
      omega
    have hlt : s.header.slen.toNat < 2 ^ 16 := s.header.slen.toNat_lt
    have hdrop : (s.bytes stack ++ rest).drop 80 =
        flattenFruCallouts stack (maxFruCallouts s.coVec) ++ rest := by
      rw [bytes, List.append_assoc]
      exact List.drop_left' (s.psrc.length_bytes s.length_srcString)
    have hdiff : (s.header.slen.toNat + 2 ^ 64 - 80) % 2 ^ 64 = s.header.slen.toNat - 80 := by
      omega
    have hlength : (maxFruCallouts s.coVec).length ≤ MAX_FRU_CALLOUTS := List.length_take_le _ _
    have hroom : fruCalloutFlatSize (maxFruCallouts s.coVec) ≤ s.header.slen.toNat - 80 := by
      omega
    obtain ⟨coVec, hcoVec, hperm, hsorted⟩ := unflattenFruCallouts_flatten stack hbuilt
      (h.apart.sublist (maxFruCallouts_sublist s.coVec)) hmax hlength rest hroom
    have hne : coVec ≠ [] := by
      intro hnil
      rw [hnil] at hperm
      exact hmax (List.map_eq_nil_iff.mp hperm.nil_eq.symm)
    have hsize : ({ s with coVec := coVec } : ErrlSrc).flatSize = s.flattened.flatSize := by
      have hflat : fruCalloutFlatSize coVec = fruCalloutFlatSize (maxFruCallouts s.coVec) := by
        rw [fruCalloutFlatSize_perm hperm, fruCalloutFlatSize_recoded]
      simp only [flatSize, flattened]
      rw [if_neg hne, if_neg hmax, hflat]
    rw [if_neg (by omega), hdrop, hdiff, hcoVec, Option.bind_some, hsize]
    exact ⟨_, rfl, rfl, rfl, rfl, rfl, rfl, rfl, rfl, rfl, rfl, rfl, hperm, hsorted⟩

/-! ## The sections that entries have -/

theorem built_recoded {c : FruCallOutEntry} (h : c.Built) : c.recoded.Built :=
  ⟨h.location, h.locationSize, h.terminated, h.locCodeLen_le, h.aligned, h.partNumber, h.ccin,
    h.serialNumber, h.noPartNumber, h.noCcin, h.noSerialNumber, h.onlyWithPart⟩

theorem Returns.ok {s s' : ErrlSrc} (h : s.Ok) (hs' : s.Returns s') : s'.Ok where
  built c hc := by
    obtain ⟨d, hd, rfl⟩ := List.mem_map.mp (hs'.callouts.mem_iff.mp hc)
    exact built_recoded (h.built d ((maxFruCallouts_sublist s.coVec).subset hd))
  apart := by
    have hkept : Apart (maxFruCallouts s.coVec) :=
      h.apart.sublist (maxFruCallouts_sublist s.coVec)
    exact hkept.recoded.perm hs'.callouts
  covers := by
    rw [Covers, hs'.header]
    constructor
    · intro hnil
      have hperm := hs'.callouts
      rw [hnil] at hperm
      exact h.covers.1 (maxFruCallouts_eq_nil.1 (List.map_eq_nil_iff.mp hperm.nil_eq.symm))
    · intro hne
      have hco : s.coVec ≠ [] := by
        intro hco
        have hperm := hs'.callouts
        rw [hco] at hperm
        exact hne hperm.eq_nil
      have hcovers := h.covers.2 hco
      have hmax := fruCalloutFlatSize_max_le s'.coVec
      rw [fruCalloutFlatSize_perm hs'.callouts, fruCalloutFlatSize_recoded] at hmax
      omega

/-- The sections that entries have.  The callouts are added by `commit`, which
flattens the section right behind; a log may be read back and written again. -/
inductive Reachable (stack : Nat → UInt8) : ErrlSrc → Prop
  | new (srcType modId : UInt8) (reasonCode : UInt16) (user1 user2 : UInt64)
      (progressCode : UInt32) :
      Reachable stack (.new srcType modId reasonCode user1 user2 progressCode)
  | set {s s' : ErrlSrc} (hs : Reachable stack s) (hheader : s'.header = s.header)
      (hcoVec : s'.coVec = s.coVec) : Reachable stack s'
  | commit {s s' : ErrlSrc} (hs : Reachable stack s) (cs : List FruCallOutEntry)
      (hcs : ∀ c ∈ cs, c.Built) (hs' : s' = { s with coVec := cs.foldl addFruCallout s.coVec })
      (hfits : 80 + fruCalloutFlatSize s'.coVec < 65536) : Reachable stack s'.flattened
  | flatten {s : ErrlSrc} (hs : Reachable stack s)
      (hfits : 80 + fruCalloutFlatSize s.coVec < 65536) : Reachable stack s.flattened
  | unflatten {s s0 s' : ErrlSrc} {rest : Bytes} {n : Nat} (hs : Reachable stack s)
      (hco : s0.coVec = []) (hdeconfig : s0.deconfig = false) (hgard : s0.gard = false)
      (hs' : s0.unflatten (s.bytes stack ++ rest) = some (s', n)) : Reachable stack s'

theorem ok_of_reachable {stack : Nat → UInt8} {s : ErrlSrc} (h : Reachable stack s) : s.Ok := by
  induction h with
  | new srcType modId reasonCode user1 user2 progressCode => exact ok_new ..
  | set _ hheader hcoVec ih =>
    refine ⟨hcoVec ▸ ih.built, hcoVec ▸ ih.apart, ?_⟩
    have hcovers := ih.covers
    unfold Covers at hcovers ⊢
    rwa [hheader, hcoVec]
  | commit _ cs hcs hs' hfits ih =>
    subst hs'
    refine ok_flattened (forall_foldl_addFruCallout ih.built hcs)
      (apart_foldl_addFruCallout ih.apart) hfits fun hnil => ?_
    by_contra hslen
    exact foldl_addFruCallout_ne_nil (fun hco => hslen (ih.covers.1 hco)) hnil
  | flatten _ hfits ih => exact ok_flattened ih.built ih.apart hfits ih.covers.1
  | unflatten _ hco hdeconfig hgard hs' ih =>
    rename_i rest n _
    obtain ⟨s'', hread, hreturns⟩ := unflatten_bytes stack ih hco hdeconfig hgard rest
    rw [hread] at hs'
    cases hs'
    exact hreturns.ok ih

/-- The callouts of a part whose location code fits, and of a procedure. -/
inductive Called : FruCallOutEntry → Prop
  | hw (chassis location fru ccin serial : Bytes) (priority : Nat)
      (hfits : (fullLocationCode chassis location).length ≤ PEL_LOC_CODE_SIZE) :
      Called (hwCallout chassis location fru ccin serial priority)
  | procedure (isolationProcedure : Bytes) (priority : Nat) :
      Called (procedureCallout isolationProcedure priority)

/-- Whatever happened to a section before, what `commit` writes of it is read
back, with the ten first of its callouts, and can be written again. -/
theorem commit_round_trip {stack : Nat → UInt8} {s s0 : ErrlSrc} (h : Reachable stack s)
    (cs : List FruCallOutEntry) (hcs : ∀ c ∈ cs, Called c)
    (hfits : 80 + fruCalloutFlatSize (cs.foldl addFruCallout s.coVec) < 65536)
    (hco : s0.coVec = []) (hdeconfig : s0.deconfig = false) (hgard : s0.gard = false)
    (rest : Bytes) :
    ∃ s1 s', s1 = ({ s with coVec := cs.foldl addFruCallout s.coVec } : ErrlSrc).flattened ∧
      s0.unflatten (s1.bytes stack ++ rest) = some (s', (s1.bytes stack).length) ∧
      s1.Returns s' ∧ Reachable stack s' := by
  have hbuilt : ∀ c ∈ cs, c.Built := by
    intro c hc
    cases hcs c hc with
    | hw chassis location fru ccin serial priority hfits =>
      exact hwCallout_built chassis location fru ccin serial priority hfits
    | procedure isolationProcedure priority =>
      exact procedureCallout_built isolationProcedure priority
  have hcommit := Reachable.commit h cs hbuilt rfl hfits
  obtain ⟨s', hread, hreturns⟩ :=
    unflatten_bytes stack (ok_of_reachable hcommit) hco hdeconfig hgard rest
  exact ⟨_, s', rfl, hread, hreturns, .unflatten hcommit hco hdeconfig hgard hread⟩

/-- A part and a procedure are called out. -/
theorem commit_round_trip_two : ∃ s1 s' : ErrlSrc, s1.coVec.length = 2 ∧ s1.Returns s' ∧
    (new 0 0 0 0 0 0).unflatten (s1.bytes fun _ => 0) = some (s', (s1.bytes fun _ => 0).length) := by
  set cs := [hwCallout [0x55, 0x37] [0x50, 0x30] [0x30, 0x31] [0x32] [0x33] SRCI_PRIORITY_MED,
    procedureCallout [0x42] SRCI_PRIORITY_MEDB] with hcs
  have hcalled : ∀ c ∈ cs, Called c := by
    intro c hc
    rcases List.mem_cons.mp hc with rfl | hc
    · exact .hw _ _ _ _ _ _ (by decide)
    · rw [List.mem_singleton.mp hc]
      exact .procedure _ _
  obtain ⟨s1, s', hs1, hread, hreturns, -⟩ := @commit_round_trip (fun _ => 0) _
    (new 0 0 0 0 0 0) (.new 0 0 0 0 0 0) cs hcalled (by decide +kernel) rfl rfl rfl []
  rw [List.append_nil] at hread
  refine ⟨s1, s', ?_, hreturns, hread⟩
  rw [hs1]
  decide +kernel

/-! ## What `flatten` writes -/

theorem flattened_flatSize_le (s : ErrlSrc) : s.flattened.flatSize ≤ s.flatSize := by
  have hmax := fruCalloutFlatSize_max_le s.coVec
  by_cases hco : s.coVec = []
  · rw [flatSize, flatSize, flattened, hco]
    exact Nat.le_refl _
  · have hmaxne : maxFruCallouts s.coVec ≠ [] := mt maxFruCallouts_eq_nil.1 hco
    rw [flatSize, flatSize, flattened]
    simp only [if_neg hco, if_neg hmaxne]
    omega

/-- `flatten` writes the section, and nothing outside the place it has cleared. -/
theorem flatten_spec (stack : Nat → UInt8) {s : ErrlSrc} (h : ∀ c ∈ s.coVec, c.Built) (m : Mem)
    (p cb : Nat) (hfits : s.flatSize ≤ cb) :
    (s.flatten stack m p cb).1 = (s.bytes stack).length ∧
      (s.flatten stack m p cb).2.1.Holds p (s.bytes stack) ∧
      Mem.SameOutside m (s.flatten stack m p cb).2.1 p s.flatSize ∧
      (s.flatten stack m p cb).2.2 = s.flattened := by
  have hle := s.flattened_flatSize_le
  have hmem : (s.flatten stack m p cb).2.1 =
      (m.write p (zeros s.flatSize)).write p (s.bytes stack) := by
    rw [flatten, if_neg (by omega)]
    dsimp only
    rw [← s.psrc.length_bytes s.length_srcString, Mem.write_append]
    rfl
  refine ⟨?_, ?_, ?_, ?_⟩
  · rw [flatten, if_neg (by omega), length_bytes stack h]
  · rw [hmem]
    exact Mem.holds_write _ _ _
  · rw [hmem]
    have hzero : Mem.SameOutside m (m.write p (zeros s.flatSize)) p s.flatSize := by
      have hsame := Mem.write_sameOutside m p (zeros s.flatSize)
      rwa [length_zeros] at hsame
    refine hzero.trans ((Mem.write_sameOutside _ p (s.bytes stack)).mono (Nat.le_refl p) ?_)
    rw [length_bytes stack h]
    omega
  · rw [flatten, if_neg (by omega)]

end ErrlSrc

end Hostboot.Errl.Pel
