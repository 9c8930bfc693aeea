import Hostboot.Lib.Parity
import Mathlib.Data.List.Basic

/-!
# The ECC of the boot flash

The flash keeps a check byte behind every eight bytes of data.  `injectECC`
adds the check bytes, and `removeECC` takes them out again, corrects what it
can and reports what it finds.
-/

namespace Hostboot.Pnor.Ecc

open Lib List

/-- A byte. -/
abbrev Byte : Type := BitVec 8

/-! ## The tables -/

/-- `eccBitfields`. -/
def GD : Byte := 0xff
def UE : Byte := 0xfe
def E0 : Byte := 71
def E1 : Byte := 70
def E2 : Byte := 69
def E3 : Byte := 68
def E4 : Byte := 67
def E5 : Byte := 66
def E6 : Byte := 65
def E7 : Byte := 64

/-- `eccMatrix`: the data bits of each check bit. -/
def eccMatrix : List (BitVec 64) :=
  [0x0000e8423c0f99ff, 0x00e8423c0f99ff00, 0xe8423c0f99ff0000, 0x423c0f99ff0000e8,
    0x3c0f99ff0000e842, 0x0f99ff0000e8423c, 0x99ff0000e8423c0f, 0xff0000e8423c0f99]

/-- `syndromeMatrix`: the flipped bit of each syndrome. -/
def syndromeMatrix : List Byte := [
    GD, E7, E6, UE, E5, UE, UE, 47, E4, UE, UE, 37, UE, 35, 39, UE,
    E3, UE, UE, 48, UE, 30, 29, UE, UE, 57, 27, UE, 31, UE, UE, UE,
    E2, UE, UE, 17, UE, 18, 40, UE, UE, 58, 22, UE, 21, UE, UE, UE,
    UE, 16, 49, UE, 19, UE, UE, UE, 23, UE, UE, UE, UE, 20, UE, UE,
    E1, UE, UE, 51, UE, 46, 9, UE, UE, 34, 10, UE, 32, UE, UE, 36,
    UE, 62, 50, UE, 14, UE, UE, UE, 13, UE, UE, UE, UE, UE, UE, UE,
    UE, 61, 8, UE, 41, UE, UE, UE, 11, UE, UE, UE, UE, UE, UE, UE,
    15, UE, UE, UE, UE, UE, UE, UE, UE, UE, 12, UE, UE, UE, UE, UE,
    E0, UE, UE, 55, UE, 45, 43, UE, UE, 56, 38, UE, 1, UE, UE, UE,
    UE, 25, 26, UE, 2, UE, UE, UE, 24, UE, UE, UE, UE, UE, 28, UE,
    UE, 59, 54, UE, 42, UE, UE, 44, 6, UE, UE, UE, UE, UE, UE, UE,
    5, UE, UE, UE, UE, UE, UE, UE, UE, UE, UE, UE, UE, UE, UE, UE,
    UE, 63, 53, UE, 0, UE, UE, UE, 33, UE, UE, UE, UE, UE, UE, UE,
    3, UE, UE, 52, UE, UE, UE, UE, UE, UE, UE, UE, UE, UE, UE, UE,
    7, UE, UE, UE, UE, UE, UE, UE, UE, 60, UE, UE, UE, UE, UE, UE,
    UE, UE, UE, UE, 4, UE, UE, UE, UE, UE, UE, UE, UE, UE, UE, UE]

/-! ## Words -/

def generateECC (data : BitVec 64) : Byte :=
  (List.range 8).foldl
    (fun result i => result ||| (BitVec.ofBool (parity (eccMatrix.getD i 0 &&& data))).setWidth 8 <<< i)
    0

def verifyECC (data : BitVec 64) (ecc : Byte) : Byte :=
  syndromeMatrix.getD (generateECC data ^^^ ecc).toNat 0

/-- `correctECC`: the bad bit, the data and the check byte. -/
def correctECC (data : BitVec 64) (ecc : Byte) : Byte × BitVec 64 × Byte :=
  let badBit := verifyECC data ecc
  if badBit ≠ GD ∧ badBit ≠ UE then
    if badBit ≥ E7 then (badBit, data, ecc ^^^ 1#8 <<< (badBit - E7))
    else (badBit, data ^^^ 1#64 <<< (63 - badBit.toNat), ecc)
  else (badBit, data, ecc)

/-- `be64toh` of the eight bytes of a word. -/
def be64toh (b0 b1 b2 b3 b4 b5 b6 b7 : Byte) : BitVec 64 :=
  b0 ++ b1 ++ b2 ++ b3 ++ b4 ++ b5 ++ b6 ++ b7

/-- `htobe64`: the eight bytes of a word. -/
def htobe64 (w : BitVec 64) : List Byte :=
  [w.extractLsb' 56 8, w.extractLsb' 48 8, w.extractLsb' 40 8, w.extractLsb' 32 8,
    w.extractLsb' 24 8, w.extractLsb' 16 8, w.extractLsb' 8 8, w.extractLsb' 0 8]

/-! ## Streams -/

/-- `injectECC`.  The size must be a multiple of eight. -/
def injectECC : List Byte → Option (List Byte)
  | [] => some []
  | b0 :: b1 :: b2 :: b3 :: b4 :: b5 :: b6 :: b7 :: src => do
    let data := be64toh b0 b1 b2 b3 b4 b5 b6 b7
    let dst ← injectECC src
    some (b0 :: b1 :: b2 :: b3 :: b4 :: b5 :: b6 :: b7 :: generateECC data :: dst)
  | _ => none

attribute [grind =] injectECC

/-- `eccStatus`. -/
inductive EccStatus
  | CLEAN | CORRECTED | UNCORRECTABLE
  deriving DecidableEq, Repr

/-- What `removeECC` leaves: the status, the source and the destination buffer,
and the accumulated errors with their offsets. -/
structure Removed where
  rc : EccStatus
  src : List Byte
  dst : List Byte
  errors : List (Nat × EccStatus)
  deriving DecidableEq, Repr

/-- The loop of `removeECC` for the words that remain, from the offset `i` on.
Reading past the end of the source has no result. -/
def removeLoop : Nat → Nat → EccStatus → List Byte → Option Removed
  | 0, _, rc, src => some ⟨rc, src, [], []⟩
  | n + 1, i, rc, b0 :: b1 :: b2 :: b3 :: b4 :: b5 :: b6 :: b7 :: ecc :: src => do
    let (badBit, data, ecc') := correctECC (be64toh b0 b1 b2 b3 b4 b5 b6 b7) ecc
    let rc :=
      if badBit = UE then .UNCORRECTABLE
      else if badBit ≠ GD then if rc ≠ .UNCORRECTABLE then .CORRECTED else rc
      else rc
    let group :=
      if badBit ≠ UE ∧ badBit ≠ GD then htobe64 data ++ [ecc']
      else [b0, b1, b2, b3, b4, b5, b6, b7, ecc]
    let error : List (Nat × EccStatus) :=
      if badBit ≠ GD then [(i, if badBit = UE then .UNCORRECTABLE else .CORRECTED)] else []
    let rest ← removeLoop n (i + 9) rc src
    some ⟨rest.rc, group ++ rest.src, htobe64 data ++ rest.dst, error ++ rest.errors⟩
  | _ + 1, _, _, _ => none

attribute [grind =] removeLoop

/-- `removeECC`.  The size of the destination must be a multiple of eight. -/
def removeECC (src : List Byte) (dstSz : Nat) : Option Removed :=
  if dstSz % 8 = 0 then removeLoop (dstSz / 8) 0 .CLEAN src else none

/-! ## Damaged words -/

theorem getLsbD_generateECC (data : BitVec 64) {k : Nat} (hk : k < 8) :
    (generateECC data).getLsbD k = parity (eccMatrix.getD k 0 &&& data) := by
  have hfold : ∀ (l : List Nat) (r : Byte),
      (l.foldl (fun result i => result |||
        (BitVec.ofBool (parity (eccMatrix.getD i 0 &&& data))).setWidth 8 <<< i) r).getLsbD k
        = (r.getLsbD k || l.any fun i => i = k && parity (eccMatrix.getD i 0 &&& data)) := by
    intro l
    induction l with
    | nil =>
      intro r
      rw [foldl_nil, any_nil, Bool.or_false]
    | cons i l ih =>
      intro r
      rw [foldl_cons, ih, any_cons, BitVec.getLsbD_or, Bool.or_assoc]
      congr 2
      rw [BitVec.getLsbD_shiftLeft, BitVec.getLsbD_setWidth]
      by_cases hlt : k < i
      · have hne : i ≠ k := by omega
        simp [hlt, hne]
      · by_cases heq : i = k
        · rw [heq, Nat.sub_self]
          simp [hk]
        · have hpos : k - i ≠ 0 := by omega
          simp [heq, hpos]
  have hzero : BitVec.getLsbD (0 : Byte) k = false := BitVec.getLsbD_zero
  rw [generateECC, hfold, hzero, Bool.false_or, Bool.eq_iff_iff, any_eq_true]
  constructor
  · rintro ⟨i, _, hi⟩
    rw [Bool.and_eq_true, decide_eq_true_iff] at hi
    rw [← hi.1]
    exact hi.2
  · intro hbit
    exact ⟨k, mem_range.mpr hk, by rw [hbit, decide_eq_true rfl, Bool.and_self]⟩

theorem generateECC_xor (x y : BitVec 64) :
    generateECC (x ^^^ y) = generateECC x ^^^ generateECC y := by
  refine BitVec.eq_of_getLsbD_eq fun k hk => ?_
  have hand : eccMatrix.getD k 0 &&& (x ^^^ y)
      = (eccMatrix.getD k 0 &&& x) ^^^ (eccMatrix.getD k 0 &&& y) := by
    refine BitVec.eq_of_getLsbD_eq fun i _ => ?_
    simp only [BitVec.getLsbD_and, BitVec.getLsbD_xor, Bool.and_xor_distrib_left]
  rw [BitVec.getLsbD_xor, getLsbD_generateECC _ hk, getLsbD_generateECC _ hk,
    getLsbD_generateECC _ hk, hand, parity_xor]

/-- The nine bytes of a group: the data, and the check byte. -/
def group (data : BitVec 64) (ecc : Byte) : BitVec 72 := data ++ ecc

/-- The syndrome of a pattern of flipped bits in a group. -/
def syndrome (e : BitVec 72) : Byte := generateECC (e.extractLsb' 8 64) ^^^ e.extractLsb' 0 8

/-- The syndrome of each single bit, the check byte first. -/
def columns : List Byte := [
    0x01, 0x02, 0x04, 0x08, 0x10, 0x20, 0x40, 0x80, 0xc1, 0x51, 0x61, 0xe9,
    0xa1, 0x29, 0x19, 0x89, 0x83, 0xa2, 0xc2, 0xd3, 0x43, 0x52, 0x32, 0x13,
    0x07, 0x45, 0x85, 0xa7, 0x86, 0xa4, 0x64, 0x26, 0x0e, 0x8a, 0x0b, 0x4f,
    0x0d, 0x49, 0xc8, 0x4c, 0x1c, 0x15, 0x16, 0x9e, 0x1a, 0x92, 0x91, 0x98,
    0x38, 0x2a, 0x2c, 0x3d, 0x34, 0x25, 0x23, 0x31, 0x70, 0x54, 0x58, 0x7a,
    0x68, 0x4a, 0x46, 0x62, 0xe0, 0xa8, 0xb0, 0xf4, 0xd0, 0x94, 0x8c, 0xc4]

/-- What the table answers for each single bit. -/
def flippedBit (i : Nat) : Byte := if i < 8 then BitVec.ofNat 8 (64 + i) else BitVec.ofNat 8 (71 - i)

theorem tables_hold :
    (∀ i < 64, ∀ k < 8, (eccMatrix.getD k 0).getLsbD i = (columns.getD (i + 8) 0).getLsbD k) ∧
      (∀ i < 72, syndromeMatrix.getD (columns.getD i 0).toNat 0 = flippedBit i) ∧
      (∀ i < 72, parity (columns.getD i 0) = true) ∧
      ∀ s < 256, parity (BitVec.ofNat 8 s) = false → s ≠ 0 → syndromeMatrix.getD s 0 = UE := by
  decide +kernel

theorem column_bits : ∀ i < 64, ∀ k < 8,
    (eccMatrix.getD k 0).getLsbD i = (columns.getD (i + 8) 0).getLsbD k := tables_hold.1

theorem check_bits : ∀ i < 8, BitVec.twoPow 8 i = columns.getD i 0 := by
  decide

theorem check_parts {i : Nat} (hi : i < 8) :
    (BitVec.twoPow 72 i).extractLsb' 8 64 = 0#64 ∧
      (BitVec.twoPow 72 i).extractLsb' 0 8 = BitVec.twoPow 8 i := by
  constructor
  · refine BitVec.eq_of_getLsbD_eq fun k hk => ?_
    rw [BitVec.getLsbD_extractLsb', BitVec.getLsbD_twoPow, BitVec.getLsbD_zero]
    have hne : i ≠ 8 + k := by omega
    simp [hne]
  · refine BitVec.eq_of_getLsbD_eq fun k hk => ?_
    rw [BitVec.getLsbD_extractLsb', BitVec.getLsbD_twoPow, BitVec.getLsbD_twoPow, Nat.zero_add]
    have hwide : i < 72 := by omega
    simp [hk, hi, hwide]

theorem data_parts {j : Nat} (hj : j < 64) :
    (BitVec.twoPow 72 (j + 8)).extractLsb' 8 64 = BitVec.twoPow 64 j ∧
      (BitVec.twoPow 72 (j + 8)).extractLsb' 0 8 = 0#8 := by
  constructor
  · refine BitVec.eq_of_getLsbD_eq fun k hk => ?_
    rw [BitVec.getLsbD_extractLsb', BitVec.getLsbD_twoPow, BitVec.getLsbD_twoPow]
    have hiff : (j + 8 = 8 + k) = (j = k) := propext ⟨fun h => by omega, fun h => by omega⟩
    have hwide : j + 8 < 72 := by omega
    simp [hk, hj, hiff, hwide]
  · refine BitVec.eq_of_getLsbD_eq fun k hk => ?_
    rw [BitVec.getLsbD_extractLsb', BitVec.getLsbD_twoPow, BitVec.getLsbD_zero, Nat.zero_add]
    have hne : j + 8 ≠ k := by omega
    simp [hne]

theorem syndrome_column {i : Nat} (hi : i < 72) :
    syndrome (BitVec.twoPow 72 i) = columns.getD i 0 := by
  by_cases hcheck : i < 8
  · obtain ⟨hdata, hecc⟩ := check_parts hcheck
    have hzero : generateECC 0#64 = 0#8 := by
      have h := generateECC_xor 0#64 0#64
      rwa [BitVec.xor_self, BitVec.xor_self] at h
    rw [syndrome, hdata, hecc, hzero, BitVec.zero_xor]
    exact check_bits i hcheck
  · obtain ⟨j, rfl⟩ : ∃ j, i = j + 8 := ⟨i - 8, by omega⟩
    obtain ⟨hdata, hecc⟩ := data_parts (show j < 64 by omega)
    rw [syndrome, hdata, hecc, BitVec.xor_zero]
    refine BitVec.eq_of_getLsbD_eq fun k hk => ?_
    rw [getLsbD_generateECC _ hk, parity_and_twoPow _ (by omega)]
    exact column_bits j (by omega) k hk

theorem columns_single :
    ∀ i < 72, syndromeMatrix.getD (columns.getD i 0).toNat 0 = flippedBit i := tables_hold.2.1

theorem columns_odd : ∀ i < 72, parity (columns.getD i 0) = true := tables_hold.2.2.1

/-- Two flipped bits leave an even syndrome, and the table gives up on all even
syndromes but zero. -/
theorem even_uncorrectable :
    ∀ s < 256, parity (BitVec.ofNat 8 s) = false → s ≠ 0 → syndromeMatrix.getD s 0 = UE :=
  tables_hold.2.2.2

theorem toNat_flippedBit {i : Nat} (hi : i < 72) :
    (flippedBit i).toNat = if i < 8 then 64 + i else 71 - i := by
  unfold flippedBit
  split
  · exact (BitVec.toNat_ofNat _ _).trans (Nat.mod_eq_of_lt (by omega))
  · exact (BitVec.toNat_ofNat _ _).trans (Nat.mod_eq_of_lt (by omega))

theorem flippedBit_inj : ∀ i < 72, ∀ j < 72, flippedBit i = flippedBit j → i = j := by
  intro i hi j hj heq
  have hnat := congrArg BitVec.toNat heq
  rw [toNat_flippedBit hi, toNat_flippedBit hj] at hnat
  split at hnat <;> split at hnat <;> omega

theorem columns_double {i j : Nat} (hi : i < 72) (hj : j < 72) (hne : i ≠ j) :
    syndromeMatrix.getD (columns.getD i 0 ^^^ columns.getD j 0).toNat 0 = UE := by
  refine even_uncorrectable _ (BitVec.isLt _) ?_ ?_
  · rw [BitVec.ofNat_toNat, BitVec.setWidth_eq, parity_xor, columns_odd i hi, columns_odd j hj]
    rfl
  · intro hzero
    have heq := BitVec.xor_eq_zero_iff.mp (BitVec.eq_of_toNat_eq (y := 0#8) hzero)
    apply hne
    refine flippedBit_inj i hi j hj ?_
    rw [← columns_single i hi, ← columns_single j hj, heq]

theorem detects : Detects (fun s : Byte => syndromeMatrix.getD s.toNat 0) syndrome GD UE
    flippedBit where
  additive x y := by
    unfold syndrome
    rw [BitVec.extractLsb'_xor, BitVec.extractLsb'_xor, generateECC_xor]
    ac_rfl
  none := rfl
  single i hi := by
    rw [syndrome_column hi]
    exact columns_single i hi
  double i hi j hj hne := by
    rw [syndrome_column hi, syndrome_column hj]
    exact columns_double hi hj hne

/-! ## Damaged groups -/

/-- The number of bits that differ between a word with its check byte and what
is read back. -/
def damage (data : BitVec 64) (data' : BitVec 64) (ecc' : Byte) : Nat :=
  weight (group data (generateECC data) ^^^ group data' ecc')

theorem group_xor (data data' : BitVec 64) (ecc ecc' : Byte) :
    (group data ecc ^^^ group data' ecc').extractLsb' 8 64 = data ^^^ data' ∧
      (group data ecc ^^^ group data' ecc').extractLsb' 0 8 = ecc ^^^ ecc' := by
  rw [group, group, BitVec.xor_append]
  exact ⟨BitVec.extractLsb'_append_eq_left, BitVec.extractLsb'_append_eq_right⟩

theorem verifyECC_eq (data data' : BitVec 64) (ecc' : Byte) :
    verifyECC data' ecc'
      = syndromeMatrix.getD
        (syndrome (group data (generateECC data) ^^^ group data' ecc')).toNat 0 := by
  obtain ⟨hdata, hecc⟩ := group_xor data data' (generateECC data) ecc'
  have hsyn : syndrome (group data (generateECC data) ^^^ group data' ecc')
      = generateECC data' ^^^ ecc' := by
    rw [syndrome, hdata, hecc, generateECC_xor]
    calc generateECC data ^^^ generateECC data' ^^^ (generateECC data ^^^ ecc')
        = (generateECC data ^^^ generateECC data) ^^^ (generateECC data' ^^^ ecc') := by ac_rfl
      _ = generateECC data' ^^^ ecc' := by rw [BitVec.xor_self, BitVec.zero_xor]
  rw [verifyECC, hsyn]

variable {data data' : BitVec 64} {ecc' : Byte}

theorem correctECC_zero (h : damage data data' ecc' = 0) :
    correctECC data' ecc' = (GD, data', ecc') ∧ data' = data ∧ ecc' = generateECC data := by
  have hverify : verifyECC data' ecc' = GD := by
    rw [verifyECC_eq data]
    exact detects.of_zero h
  have hpattern : group data (generateECC data) ^^^ group data' ecc' = 0#72 := weight_eq_zero h
  obtain ⟨hdata, hecc⟩ := group_xor data data' (generateECC data) ecc'
  rw [hpattern] at hdata hecc
  refine ⟨?_, ?_, ?_⟩
  · rw [correctECC, hverify]
    rfl
  · exact (BitVec.xor_eq_zero_iff.mp hdata.symm).symm
  · exact (BitVec.xor_eq_zero_iff.mp hecc.symm).symm

theorem flippedBit_single : ∀ i < 72, flippedBit i ≠ GD ∧ flippedBit i ≠ UE := by
  intro i hi
  have hlt : (flippedBit i).toNat < 72 := by
    rw [toNat_flippedBit hi]
    split <;> omega
  refine ⟨fun h => ?_, fun h => ?_⟩
  · rw [h] at hlt
    exact absurd hlt (by decide)
  · rw [h] at hlt
    exact absurd hlt (by decide)

theorem flippedBit_check : ∀ i < 8, flippedBit i ≥ E7 ∧
    1#8 <<< (flippedBit i - E7) = BitVec.twoPow 8 i := by
  decide

theorem flippedBit_data : ∀ j < 64, ¬ flippedBit (j + 8) ≥ E7 ∧
    1#64 <<< (63 - (flippedBit (j + 8)).toNat) = BitVec.twoPow 64 j := by
  intro j hj
  have hnat : (flippedBit (j + 8)).toNat = 63 - j := by
    rw [toNat_flippedBit (by omega), if_neg (by omega)]
    omega
  refine ⟨fun hge => ?_, ?_⟩
  · have hle : 64 ≤ (flippedBit (j + 8)).toNat := hge
    omega
  · have hj' : 63 - (63 - j) = j := by omega
    rw [hnat, hj']
    rfl

theorem correctECC_one (h : damage data data' ecc' = 1) :
    ∃ badBit, badBit ≠ GD ∧ badBit ≠ UE ∧
      correctECC data' ecc' = (badBit, data, generateECC data) := by
  obtain ⟨i, hi, hpattern, htable⟩ := detects.of_one h
  have hverify : verifyECC data' ecc' = flippedBit i := by
    rw [verifyECC_eq data]
    exact htable
  obtain ⟨hgood, hbad⟩ := flippedBit_single i hi
  obtain ⟨hdata, hecc⟩ := group_xor data data' (generateECC data) ecc'
  rw [hpattern] at hdata hecc
  refine ⟨flippedBit i, hgood, hbad, ?_⟩
  rw [correctECC, hverify, if_pos ⟨hgood, hbad⟩]
  by_cases hcheck : i < 8
  · obtain ⟨hge, hbit⟩ := flippedBit_check i hcheck
    obtain ⟨hpart, hpart'⟩ := check_parts hcheck
    rw [hpart] at hdata
    rw [hpart'] at hecc
    have hsame : data' = data := (BitVec.xor_eq_zero_iff.mp hdata.symm).symm
    have hfixed : ecc' ^^^ BitVec.twoPow 8 i = generateECC data := by
      rw [hecc, BitVec.xor_comm, BitVec.xor_assoc, BitVec.xor_self, BitVec.xor_zero]
    rw [if_pos hge, hbit, hfixed, hsame]
  · obtain ⟨j, rfl⟩ : ∃ j, i = j + 8 := ⟨i - 8, by omega⟩
    obtain ⟨hlt, hbit⟩ := flippedBit_data j (by omega)
    obtain ⟨hpart, hpart'⟩ := data_parts (show j < 64 by omega)
    rw [hpart] at hdata
    rw [hpart'] at hecc
    have hsame : ecc' = generateECC data := (BitVec.xor_eq_zero_iff.mp hecc.symm).symm
    have hfixed : data' ^^^ BitVec.twoPow 64 j = data := by
      rw [hdata, BitVec.xor_comm, BitVec.xor_assoc, BitVec.xor_self, BitVec.xor_zero]
    rw [if_neg hlt, hbit, hfixed, hsame]

theorem correctECC_two (h : damage data data' ecc' = 2) :
    correctECC data' ecc' = (UE, data', ecc') := by
  have hverify : verifyECC data' ecc' = UE := by
    rw [verifyECC_eq data]
    exact detects.of_two h
  rw [correctECC, hverify]
  rfl

/-! ## Bytes of a word -/

theorem extract_high {n : Nat} (x : BitVec n) (b : Byte) {k : Nat} (h : 8 ≤ k) :
    (x ++ b).extractLsb' k 8 = x.extractLsb' (k - 8) 8 :=
  BitVec.extractLsb'_append_eq_of_le h

theorem extract_low {n : Nat} (x : BitVec n) (b : Byte) : (x ++ b).extractLsb' 0 8 = b :=
  BitVec.extractLsb'_append_eq_right

theorem htobe64_be64toh (b0 b1 b2 b3 b4 b5 b6 b7 : Byte) :
    htobe64 (be64toh b0 b1 b2 b3 b4 b5 b6 b7) = [b0, b1, b2, b3, b4, b5, b6, b7] := by
  unfold htobe64 be64toh
  simp [extract_high, extract_low]

theorem eight_of_length {l : List Byte} {m : Nat} (h : l.length = m + 8) :
    ∃ b0 b1 b2 b3 b4 b5 b6 b7 rest, l = b0 :: b1 :: b2 :: b3 :: b4 :: b5 :: b6 :: b7 :: rest ∧
      rest.length = m := by
  obtain ⟨b0, l1, rfl, h1⟩ := length_eq_succ_iff.mp h
  obtain ⟨b1, l2, rfl, h2⟩ := length_eq_succ_iff.mp h1
  obtain ⟨b2, l3, rfl, h3⟩ := length_eq_succ_iff.mp h2
  obtain ⟨b3, l4, rfl, h4⟩ := length_eq_succ_iff.mp h3
  obtain ⟨b4, l5, rfl, h5⟩ := length_eq_succ_iff.mp h4
  obtain ⟨b5, l6, rfl, h6⟩ := length_eq_succ_iff.mp h5
  obtain ⟨b6, l7, rfl, h7⟩ := length_eq_succ_iff.mp h6
  obtain ⟨b7, l8, rfl, h8⟩ := length_eq_succ_iff.mp h7
  exact ⟨b0, b1, b2, b3, b4, b5, b6, b7, l8, rfl, h8⟩

theorem nine_of_length {l : List Byte} {m : Nat} (h : l.length = m + 9) :
    ∃ b0 b1 b2 b3 b4 b5 b6 b7 ecc rest,
      l = b0 :: b1 :: b2 :: b3 :: b4 :: b5 :: b6 :: b7 :: ecc :: rest ∧ rest.length = m := by
  obtain ⟨b0, b1, b2, b3, b4, b5, b6, b7, l, rfl, hl⟩ := eight_of_length (m := m + 1) h
  obtain ⟨ecc, rest, rfl, hrest⟩ := length_eq_succ_iff.mp hl
  exact ⟨b0, b1, b2, b3, b4, b5, b6, b7, ecc, rest, rfl, hrest⟩

/-! ## The loop -/

/-- The flipped bits of each group of nine bytes. -/
def damages : List Byte → List Byte → List Nat
  | b0 :: b1 :: b2 :: b3 :: b4 :: b5 :: b6 :: b7 :: ecc :: enc,
    c0 :: c1 :: c2 :: c3 :: c4 :: c5 :: c6 :: c7 :: ecc' :: src =>
    weight (group (be64toh b0 b1 b2 b3 b4 b5 b6 b7) ecc
      ^^^ group (be64toh c0 c1 c2 c3 c4 c5 c6 c7) ecc') :: damages enc src
  | _, _ => []

attribute [grind =] damages

/-- The status after a group with `d` flipped bits: two of them are not
forgotten. -/
def status (rc : EccStatus) (d : Nat) : EccStatus :=
  if d = 2 then .UNCORRECTABLE
  else if d = 1 ∧ rc ≠ .UNCORRECTABLE then .CORRECTED
  else rc

/-- The error of the group at index `k`. -/
def located : Nat × Nat → Option (Nat × EccStatus)
  | (d, k) => if d = 0 then none else some (9 * k, if d = 2 then .UNCORRECTABLE else .CORRECTED)

theorem damages_cons (b0 b1 b2 b3 b4 b5 b6 b7 c0 c1 c2 c3 c4 c5 c6 c7 ecc' : Byte)
    (enc src : List Byte) :
    damages
      (b0 :: b1 :: b2 :: b3 :: b4 :: b5 :: b6 :: b7
        :: generateECC (be64toh b0 b1 b2 b3 b4 b5 b6 b7) :: enc)
      (c0 :: c1 :: c2 :: c3 :: c4 :: c5 :: c6 :: c7 :: ecc' :: src)
      = damage (be64toh b0 b1 b2 b3 b4 b5 b6 b7) (be64toh c0 c1 c2 c3 c4 c5 c6 c7) ecc'
        :: damages enc src := rfl

section Turn

variable {c0 c1 c2 c3 c4 c5 c6 c7 ecc ecc' badBit : Byte} {w : BitVec 64} {src : List Byte}
  {n i : Nat} {rc : EccStatus} {r : Removed}

theorem removeLoop_good
    (h : correctECC (be64toh c0 c1 c2 c3 c4 c5 c6 c7) ecc
      = (GD, be64toh c0 c1 c2 c3 c4 c5 c6 c7, ecc))
    (hr : removeLoop n (i + 9) rc src = some r) :
    removeLoop (n + 1) i rc (c0 :: c1 :: c2 :: c3 :: c4 :: c5 :: c6 :: c7 :: ecc :: src)
      = some ⟨r.rc, [c0, c1, c2, c3, c4, c5, c6, c7, ecc] ++ r.src,
          [c0, c1, c2, c3, c4, c5, c6, c7] ++ r.dst, r.errors⟩ := by
  have hgood : GD ≠ UE := by decide
  rw [removeLoop, h]
  dsimp only
  rw [if_neg hgood, if_neg (not_not.mpr rfl), if_neg (fun hne => hne.2 rfl),
    if_neg (not_not.mpr rfl), hr, htobe64_be64toh]
  rfl

theorem removeLoop_corrected (hbad : badBit ≠ GD) (huncorrectable : badBit ≠ UE)
    (h : correctECC (be64toh c0 c1 c2 c3 c4 c5 c6 c7) ecc = (badBit, w, ecc'))
    (hr : removeLoop n (i + 9) (status rc 1) src = some r) :
    removeLoop (n + 1) i rc (c0 :: c1 :: c2 :: c3 :: c4 :: c5 :: c6 :: c7 :: ecc :: src)
      = some ⟨r.rc, htobe64 w ++ [ecc'] ++ r.src, htobe64 w ++ r.dst,
          (i, .CORRECTED) :: r.errors⟩ := by
  have hstatus : (if rc ≠ .UNCORRECTABLE then EccStatus.CORRECTED else rc) = status rc 1 := by
    cases rc <;> rfl
  rw [removeLoop, h]
  dsimp only
  rw [if_neg huncorrectable, if_pos hbad, hstatus, if_pos ⟨huncorrectable, hbad⟩, if_pos hbad,
    if_neg huncorrectable, hr]
  rfl

theorem removeLoop_uncorrectable
    (h : correctECC (be64toh c0 c1 c2 c3 c4 c5 c6 c7) ecc
      = (UE, be64toh c0 c1 c2 c3 c4 c5 c6 c7, ecc))
    (hr : removeLoop n (i + 9) .UNCORRECTABLE src = some r) :
    removeLoop (n + 1) i rc (c0 :: c1 :: c2 :: c3 :: c4 :: c5 :: c6 :: c7 :: ecc :: src)
      = some ⟨r.rc, [c0, c1, c2, c3, c4, c5, c6, c7, ecc] ++ r.src,
          [c0, c1, c2, c3, c4, c5, c6, c7] ++ r.dst, (i, .UNCORRECTABLE) :: r.errors⟩ := by
  have hbad : UE ≠ GD := by decide
  rw [removeLoop, h]
  dsimp only
  rw [if_pos rfl, if_neg (fun hne => hne.1 rfl), if_pos hbad, if_pos rfl, hr, htobe64_be64toh]
  rfl

end Turn

theorem removeLoop_spec (n : Nat) : ∀ (k : Nat) (rc : EccStatus) (data enc src : List Byte),
    data.length = 8 * n → injectECC data = some enc → src.length = 9 * n →
    (∀ d ∈ damages enc src, d ≤ 2) →
    ∃ r, removeLoop n (9 * k) rc src = some r ∧
      r.rc = (damages enc src).foldl status rc ∧
      r.errors = ((damages enc src).zipIdx k).filterMap located ∧
      ((∀ d ∈ damages enc src, d ≤ 1) → r.src = enc ∧ r.dst = data) := by
  induction n with
  | zero =>
    intro k rc data enc src hdata henc hsrc _
    have hnil : data = [] := eq_nil_of_length_eq_zero (by omega)
    have hnil' : src = [] := eq_nil_of_length_eq_zero (by omega)
    subst hnil hnil'
    have hnil'' : [] = enc := Option.some.inj henc
    subst hnil''
    exact ⟨⟨rc, [], [], []⟩, rfl, rfl, rfl, fun _ => ⟨rfl, rfl⟩⟩
  | succ n ih =>
    intro k rc data enc src hdata henc hsrc hle
    have hdata8 : data.length = 8 * n + 8 := by omega
    have hsrc9 : src.length = 9 * n + 9 := by omega
    obtain ⟨b0, b1, b2, b3, b4, b5, b6, b7, data, rfl, hdata'⟩ := eight_of_length hdata8
    obtain ⟨c0, c1, c2, c3, c4, c5, c6, c7, ecc, src, rfl, hsrc'⟩ := nine_of_length hsrc9
    rw [injectECC] at henc
    obtain ⟨enc', henc', hcons⟩ := Option.bind_eq_some_iff.mp henc
    have henc'' := Option.some.inj hcons
    subst henc''
    rw [damages_cons] at hle ⊢
    have hword := htobe64_be64toh b0 b1 b2 b3 b4 b5 b6 b7
    generalize hd : damage (be64toh b0 b1 b2 b3 b4 b5 b6 b7) (be64toh c0 c1 c2 c3 c4 c5 c6 c7) ecc
      = d at hle ⊢
    obtain ⟨r, hr, hstatus, herrors, hrestored⟩ := ih (k + 1) (status rc d) data enc' src
      hdata' henc' hsrc' fun d hd => hle d (mem_cons_of_mem _ hd)
    have hindex : 9 * (k + 1) = 9 * k + 9 := by omega
    rw [hindex] at hr
    match d, hd, hle _ mem_cons_self with
    | 0, hd, _ =>
      obtain ⟨hcorrect, hsame, hsame'⟩ := correctECC_zero hd
      refine ⟨_, removeLoop_good hcorrect hr, hstatus, herrors, fun hone => ?_⟩
      obtain ⟨hsrc, hdst⟩ := hrestored fun d hd => hone d (mem_cons_of_mem _ hd)
      have hbytes := htobe64_be64toh c0 c1 c2 c3 c4 c5 c6 c7
      rw [hsame, hword] at hbytes
      rw [hsrc, hdst, ← hsame']
      exact ⟨congrArg (· ++ ecc :: enc') hbytes.symm, congrArg (· ++ data) hbytes.symm⟩
    | 1, hd, _ =>
      obtain ⟨badBit, hbad, huncorrectable, hcorrect⟩ := correctECC_one hd
      refine ⟨_, removeLoop_corrected hbad huncorrectable hcorrect hr, hstatus,
        congrArg (List.cons _) herrors, fun hone => ?_⟩
      obtain ⟨hsrc, hdst⟩ := hrestored fun d hd => hone d (mem_cons_of_mem _ hd)
      rw [hsrc, hdst, hword]
      exact ⟨rfl, rfl⟩
    | 2, hd, _ =>
      refine ⟨_, removeLoop_uncorrectable (correctECC_two hd) hr, hstatus,
        congrArg (List.cons _) herrors, fun hone => ?_⟩
      exact absurd (hone 2 mem_cons_self) (by omega)

/-! ## The codec -/

theorem injectECC_some (n : Nat) : ∀ data : List Byte, data.length = 8 * n →
    ∃ enc, injectECC data = some enc ∧ enc.length = 9 * n := by
  induction n with
  | zero =>
    intro data hdata
    have hnil : data = [] := eq_nil_of_length_eq_zero (by omega)
    subst hnil
    exact ⟨[], rfl, rfl⟩
  | succ n ih =>
    intro data hdata
    have hdata8 : data.length = 8 * n + 8 := by omega
    obtain ⟨b0, b1, b2, b3, b4, b5, b6, b7, data, rfl, hdata'⟩ := eight_of_length hdata8
    obtain ⟨enc, henc, hlen⟩ := ih data hdata'
    rw [injectECC, henc]
    refine ⟨_, rfl, ?_⟩
    simp only [length_cons]
    omega

theorem damages_eq_zero (n : Nat) : ∀ enc src : List Byte, enc.length = 9 * n →
    src.length = 9 * n → ((∀ d ∈ damages enc src, d = 0) ↔ src = enc) := by
  induction n with
  | zero =>
    intro enc src henc hsrc
    have hnil : enc = [] := eq_nil_of_length_eq_zero (by omega)
    have hnil' : src = [] := eq_nil_of_length_eq_zero (by omega)
    subst hnil hnil'
    simp [damages]
  | succ n ih =>
    intro enc src henc hsrc
    have henc9 : enc.length = 9 * n + 9 := by omega
    have hsrc9 : src.length = 9 * n + 9 := by omega
    obtain ⟨b0, b1, b2, b3, b4, b5, b6, b7, ecc, enc, rfl, henc'⟩ := nine_of_length henc9
    obtain ⟨c0, c1, c2, c3, c4, c5, c6, c7, ecc', src, rfl, hsrc'⟩ := nine_of_length hsrc9
    have hrest := ih enc src henc' hsrc'
    rw [damages]
    constructor
    · intro hzero
      have hsame := hrest.mp fun d hd => hzero d (mem_cons_of_mem _ hd)
      have hpattern := weight_eq_zero (hzero _ mem_cons_self)
      obtain ⟨hdata, hecc⟩ := group_xor (be64toh b0 b1 b2 b3 b4 b5 b6 b7)
        (be64toh c0 c1 c2 c3 c4 c5 c6 c7) ecc ecc'
      rw [hpattern] at hdata hecc
      have hword := htobe64_be64toh b0 b1 b2 b3 b4 b5 b6 b7
      rw [BitVec.xor_eq_zero_iff.mp hdata.symm, htobe64_be64toh] at hword
      rw [hsame, BitVec.xor_eq_zero_iff.mp hecc.symm]
      exact congrArg (· ++ ecc' :: enc) hword
    · intro hsame d hd
      obtain ⟨rfl, rfl, rfl, rfl, rfl, rfl, rfl, rfl, rfl, rfl⟩ : c0 = b0 ∧ c1 = b1 ∧ c2 = b2 ∧
          c3 = b3 ∧ c4 = b4 ∧ c5 = b5 ∧ c6 = b6 ∧ c7 = b7 ∧ ecc' = ecc ∧ src = enc := by
        simpa using hsame
      rcases mem_cons.mp hd with hd | hd
      · rw [hd, BitVec.xor_self]
        rfl
      · exact hrest.mpr rfl d hd

/-- Groups with at most one flipped bit each: the status says whether there was
one at all. -/
theorem foldl_status_one (l : List Nat) : ∀ rc, rc ≠ .UNCORRECTABLE → (∀ d ∈ l, d ≤ 1) →
    l.foldl status rc = if ∀ d ∈ l, d = 0 then rc else .CORRECTED := by
  induction l with
  | nil =>
    intro rc _ _
    simp
  | cons d l ih =>
    intro rc hrc hone
    have hrest := fun rc hrc => ih rc hrc fun d hd => hone d (mem_cons_of_mem _ hd)
    rw [foldl_cons]
    match d, hone d mem_cons_self with
    | 0, _ =>
      rw [show status rc 0 = rc from rfl, hrest rc hrc]
      simp
    | 1, _ =>
      have hstatus : status rc 1 = .CORRECTED := by
        rw [status, if_neg (by decide), if_pos ⟨rfl, hrc⟩]
      rw [hstatus, hrest .CORRECTED (by decide), ite_self]
      simp

theorem foldl_status_two (l : List Nat) : ∀ rc, rc = .UNCORRECTABLE ∨ 2 ∈ l →
    l.foldl status rc = .UNCORRECTABLE := by
  induction l with
  | nil =>
    intro rc h
    exact h.resolve_right not_mem_nil
  | cons d l ih =>
    intro rc h
    refine ih _ ?_
    rcases h with rfl | h
    · left
      unfold status
      split <;> simp
    · rcases mem_cons.mp h with rfl | h
      · exact .inl rfl
      · exact .inr h

/-- The codec: what is encoded is read back, groups with one flipped bit are
restored in the source and in the destination, and a group with two flipped
bits is reported.  The errors are those of the damaged groups, at their
offsets. -/
theorem codec (data : List Byte) (hlen : data.length % 8 = 0) :
    ∃ enc, injectECC data = some enc ∧
      removeECC enc data.length = some ⟨.CLEAN, enc, data, []⟩ ∧
      ∀ src : List Byte, src.length = enc.length → (∀ d ∈ damages enc src, d ≤ 2) →
        ∃ r, removeECC src data.length = some r ∧
          ((∀ d ∈ damages enc src, d ≤ 1) →
            r.src = enc ∧ r.dst = data ∧ r.rc = if src = enc then .CLEAN else .CORRECTED) ∧
          (2 ∈ damages enc src → r.rc = .UNCORRECTABLE) ∧
          r.errors = ((damages enc src).zipIdx).filterMap located := by
  obtain ⟨n, hn⟩ : ∃ n, data.length = 8 * n := ⟨data.length / 8, by omega⟩
  obtain ⟨enc, henc, henclen⟩ := injectECC_some n data hn
  have hwords : data.length / 8 = n := by omega
  have hread : ∀ src : List Byte, src.length = enc.length → (∀ d ∈ damages enc src, d ≤ 2) →
      ∃ r, removeECC src data.length = some r ∧
        ((∀ d ∈ damages enc src, d ≤ 1) →
          r.src = enc ∧ r.dst = data ∧ r.rc = if src = enc then .CLEAN else .CORRECTED) ∧
        (2 ∈ damages enc src → r.rc = .UNCORRECTABLE) ∧
        r.errors = ((damages enc src).zipIdx).filterMap located := by
    intro src hsrc hle
    have hsrclen : src.length = 9 * n := hsrc.trans henclen
    obtain ⟨r, hr, hstatus, herrors, hrestored⟩ :=
      removeLoop_spec n 0 .CLEAN data enc src hn henc hsrclen hle
    refine ⟨r, ?_, fun hone => ?_, fun htwo => ?_, herrors⟩
    · rw [removeECC, if_pos hlen, hwords]
      exact hr
    · obtain ⟨hsrc', hdst⟩ := hrestored hone
      refine ⟨hsrc', hdst, ?_⟩
      rw [hstatus, foldl_status_one _ _ (by decide) hone]
      exact if_congr (damages_eq_zero n enc src henclen hsrclen) rfl rfl
    · rw [hstatus]
      exact foldl_status_two _ _ (.inr htwo)
  refine ⟨enc, henc, ?_, hread⟩
  have hzero := (damages_eq_zero n enc enc henclen henclen).mpr rfl
  have hnone : ∀ d ∈ damages enc enc, d ≤ 1 := fun d hd => by
    rw [hzero d hd]
    exact Nat.zero_le 1
  obtain ⟨⟨rc, src, dst, errors⟩, hr, hrestored, _, herrors⟩ :=
    hread enc rfl fun d hd => Nat.le_succ_of_le (hnone d hd)
  obtain ⟨hsrc, hdst, hrc⟩ := hrestored hnone
  have hempty : ((damages enc enc).zipIdx).filterMap located = [] := by
    refine filterMap_eq_nil_iff.mpr ?_
    rintro ⟨d, k⟩ hmem
    have hd : d = 0 := hzero d (fst_mem_of_mem_zipIdx hmem)
    rw [hd]
    rfl
  rw [hempty] at herrors
  rw [if_pos rfl] at hrc
  dsimp only at hsrc hdst hrc herrors
  rw [hr, hsrc, hdst, hrc, herrors]

/-- A word and a flipped bit of its check byte. -/
theorem codec_word :
    removeECC [1, 2, 3, 4, 5, 6, 7, 8, generateECC 0x0102030405060708 ^^^ 1] 8
        = some ⟨.CORRECTED, [1, 2, 3, 4, 5, 6, 7, 8, generateECC 0x0102030405060708],
            [1, 2, 3, 4, 5, 6, 7, 8], [(0, .CORRECTED)]⟩ ∧
      ∃ enc, injectECC [1, 2, 3, 4, 5, 6, 7, 8] = some enc ∧
        removeECC enc 8 = some ⟨.CLEAN, enc, [1, 2, 3, 4, 5, 6, 7, 8], []⟩ := by
  refine ⟨by decide +kernel, ?_⟩
  obtain ⟨enc, henc, hclean, _⟩ := codec [1, 2, 3, 4, 5, 6, 7, 8] rfl
  exact ⟨enc, henc, hclean⟩

end Hostboot.Pnor.Ecc
