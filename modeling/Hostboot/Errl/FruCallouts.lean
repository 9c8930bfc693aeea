import Hostboot.Lib.Packed
import Hostboot.Util.Qsort
import Mathlib.Algebra.GroupWithZero.Nat
import Mathlib.Data.List.TakeWhile

/-!
# FRU callouts

The parts that an error calls out stand in the SRC section, behind its fixed
part.  `addFruCallout` collects them, one for each location, by priority;
`flattenFruCallouts` writes at most ten of them, and `unflattenFruCallouts` reads
them back with the same `addFruCallout`.

The module has four parts:

* the callouts and the vector of them;
* how a callout is written and read;
* `Built`: what a callout is like that `addFruCalloutDataToSrc` builds with a
  location code that fits, and that such a callout is read back as it was
  written, up to its priority: `SRCI_PRIORITY_NONE` is written as a low one
  (`readFruCallout_bytes`);
* `Clash`: two callouts of which only one stays.  No two callouts of the vector
  clash, so the reader keeps all that it reads (`foldl_addFruCallout`).

`l_fruss`, the record on the stack that a callout is put together in, is not
cleared: what it holds where no field is set is the parameter `stack`.
-/

namespace Hostboot.Errl.Pel

open Hostboot.Lib Packed List

/-! ## The callouts -/

/-- `HWAS::callOutPriority`. -/
def SRCI_PRIORITY_NONE : Nat := 0
def SRCI_PRIORITY_LOW : Nat := 1
def SRCI_PRIORITY_MEDC : Nat := 2
def SRCI_PRIORITY_MEDB : Nat := 3
def SRCI_PRIORITY_MEDA : Nat := 4
def SRCI_PRIORITY_MED : Nat := 5
def SRCI_PRIORITY_HIGH : Nat := 6

/-- `fruIdentitySubstructInfo`, and the two component types that are used. -/
def FAILING_COMP_TYPE_FRU_PN : UInt8 := 0x08
def FAILING_COMP_TYPE_FRU_CCIN : UInt8 := 0x04
def FAILING_COMP_TYPE_FRU_PRC : UInt8 := 0x02
def FAILING_COMP_TYPE_FRU_SN : UInt8 := 0x01
def FAILING_COMP_TYPE_NORMAL_HW : UInt8 := 0x10
def FAILING_COMP_TYPE_MAINT : UInt8 := 0x40

/-- The sizes of the texts in a callout. -/
def PEL_LOC_CODE_SIZE : Nat := 80
def PEL_PART_NUM_SIZE : Nat := 8
def PEL_CCIN_SIZE : Nat := 4
def PEL_SERIAL_NUM_SIZE : Nat := 12

/-- The most callouts in a log. -/
def MAX_FRU_CALLOUTS : Nat := 10

/-- `fruCallOutEntry_t`. -/
structure FruCallOutEntry where
  priority : Nat
  locCodeLen : Nat
  locationCode : Bytes
  fruCompType : UInt8
  partNumber : Bytes
  ccin : Bytes
  serialNumber : Bytes
deriving DecidableEq

def hwasPriToFruPri (hwasPri : Nat) : UInt8 :=
  if hwasPri = SRCI_PRIORITY_HIGH then 'H'.toUInt8
  else if hwasPri = SRCI_PRIORITY_MED then 'M'.toUInt8
  else if hwasPri = SRCI_PRIORITY_MEDA then 'A'.toUInt8
  else if hwasPri = SRCI_PRIORITY_MEDB then 'B'.toUInt8
  else if hwasPri = SRCI_PRIORITY_MEDC then 'C'.toUInt8
  else 'L'.toUInt8

def fruPriToHwasPri (fruPri : UInt8) : Nat :=
  if fruPri = 'H'.toUInt8 then SRCI_PRIORITY_HIGH
  else if fruPri = 'M'.toUInt8 then SRCI_PRIORITY_MED
  else if fruPri = 'A'.toUInt8 then SRCI_PRIORITY_MEDA
  else if fruPri = 'B'.toUInt8 then SRCI_PRIORITY_MEDB
  else if fruPri = 'C'.toUInt8 then SRCI_PRIORITY_MEDC
  else if fruPri = 'L'.toUInt8 then SRCI_PRIORITY_LOW
  else SRCI_PRIORITY_NONE

namespace FruCallOutEntry

/-- Whether a bit of `fruCompType` is set. -/
def has (c : FruCallOutEntry) (flag : UInt8) : Bool := c.fruCompType &&& flag != 0

def fruIdSubstructSize (c : FruCallOutEntry) : Nat :=
  if c.has FAILING_COMP_TYPE_FRU_PRC then 28 - PEL_CCIN_SIZE - PEL_SERIAL_NUM_SIZE
  else if !c.has FAILING_COMP_TYPE_FRU_PN then
    28 - PEL_PART_NUM_SIZE - PEL_CCIN_SIZE - PEL_SERIAL_NUM_SIZE
  else 28

/-- `l_frucolen`: the bytes of a callout. -/
def flatSize (c : FruCallOutEntry) : Nat := 4 + c.locCodeLen + c.fruIdSubstructSize

/-- The callout after the way through the log: a priority that has no letter of
its own comes back as the low one. -/
def recoded (c : FruCallOutEntry) : FruCallOutEntry :=
  { c with priority := fruPriToHwasPri (hwasPriToFruPri c.priority) }

end FruCallOutEntry

def fruCalloutFlatSize (coVec : List FruCallOutEntry) : Nat :=
  4 + (coVec.map FruCallOutEntry.flatSize).sum

/-- `checkForDuplicateCallout`: whether the new callout is dropped, and the
vector, without the callout that the new one takes the place of. -/
def checkForDuplicateCallout (co : FruCallOutEntry) :
    List FruCallOutEntry → Bool × List FruCallOutEntry
  | [] => (false, [])
  | it :: coVec =>
    let next := checkForDuplicateCallout co coVec
    if cstr co.locationCode = cstr it.locationCode then
      if cstr co.partNumber = [] then (true, it :: coVec)
      else if cstr it.partNumber = [] then (false, coVec)
      else if cstr co.partNumber = cstr it.partNumber then
        if it.priority < co.priority then (false, coVec) else (true, it :: coVec)
      else (next.1, it :: next.2)
    else (next.1, it :: next.2)

def addFruCallout (coVec : List FruCallOutEntry) (co : FruCallOutEntry) : List FruCallOutEntry :=
  let r := checkForDuplicateCallout co coVec
  if r.1 then r.2
  else Util.QSort.sort (fun a b => decide (b.priority < a.priority)) (r.2 ++ [co])

/-- `maxFruCallouts`, which drops callouts from the end. -/
def maxFruCallouts (coVec : List FruCallOutEntry) : List FruCallOutEntry :=
  coVec.take MAX_FRU_CALLOUTS

/-! ## What `addFruCalloutDataToSrc` adds -/

/-- `set_errl_string`. -/
def setErrlString (n : Nat) (value : Bytes) (nullTerm : Bool) : Bytes :=
  let valueLen := if nullTerm then min (cstr value).length (n - 1) else min (cstr value).length n
  (cstr value).take valueLen ++ zeros (n - valueLen)

/-- `ALIGN_4`. -/
def align4 (n : Nat) : Nat := (n + 3) / 4 * 4

/-- `full_location_code`: the code of the chassis and that of the part, with a
hyphen between them and a terminator. -/
def fullLocationCode (chassis location : Bytes) : Bytes :=
  cstr chassis ++ ['-'.toUInt8] ++ cstr location ++ [0]

/-- The callout of `FAILING_COMP_TYPE_NORMAL_HW`. -/
def hwCallout (chassis location fru ccin serial : Bytes) (priority : Nat) : FruCallOutEntry where
  priority := priority
  locCodeLen := align4 (fullLocationCode chassis location).length
  locationCode := setErrlString PEL_LOC_CODE_SIZE (fullLocationCode chassis location) true
  fruCompType := FAILING_COMP_TYPE_NORMAL_HW ||| FAILING_COMP_TYPE_FRU_PN |||
    FAILING_COMP_TYPE_FRU_CCIN ||| FAILING_COMP_TYPE_FRU_SN
  partNumber := setErrlString PEL_PART_NUM_SIZE fru true
  ccin := setErrlString PEL_CCIN_SIZE ccin false
  serialNumber := setErrlString PEL_SERIAL_NUM_SIZE serial false

/-- The callout of `FAILING_COMP_TYPE_MAINT`. -/
def procedureCallout (isolationProcedure : Bytes) (priority : Nat) : FruCallOutEntry where
  priority := priority
  locCodeLen := 0
  locationCode := zeros PEL_LOC_CODE_SIZE
  fruCompType := FAILING_COMP_TYPE_MAINT ||| FAILING_COMP_TYPE_FRU_PRC
  partNumber := setErrlString PEL_PART_NUM_SIZE isolationProcedure true
  ccin := zeros PEL_CCIN_SIZE
  serialNumber := zeros PEL_SERIAL_NUM_SIZE

/-! ## Writing and reading -/

/-- A field of `l_fruss` that is only set under a condition. -/
def frussField (stack : Nat → UInt8) (offset n : Nat) (c : Bool) (s : Bytes) : Bytes :=
  if c then strncpy n s else (List.range n).map fun i => stack (offset + i)

namespace FruCallOutEntry

/-- `pelFRUSubstructHeader_t` of a callout. -/
def frusshead (c : FruCallOutEntry) : Bytes :=
  u16 0x4944 ++ ([UInt8.ofNat c.fruIdSubstructSize] ++ [c.fruCompType])

/-- `l_fruss`. -/
def fruss (stack : Nat → UInt8) (c : FruCallOutEntry) : Bytes :=
  c.frusshead ++
    (frussField stack 4 PEL_PART_NUM_SIZE
        (c.has FAILING_COMP_TYPE_FRU_PN || c.has FAILING_COMP_TYPE_FRU_PRC) c.partNumber ++
      (frussField stack 12 PEL_CCIN_SIZE (c.has FAILING_COMP_TYPE_FRU_CCIN) c.ccin ++
        frussField stack 16 PEL_SERIAL_NUM_SIZE (c.has FAILING_COMP_TYPE_FRU_SN) c.serialNumber))

/-- `l_frucoheader`: the flags say that the callout has the type and the FRU
identity. -/
def frucoheader (c : FruCallOutEntry) : Bytes :=
  [UInt8.ofNat c.flatSize, 0x20 ||| 0x08, hwasPriToFruPri c.priority, UInt8.ofNat c.locCodeLen]

/-- One callout in the log. -/
def bytes (stack : Nat → UInt8) (c : FruCallOutEntry) : Bytes :=
  c.frucoheader ++
    (c.locationCode.take c.locCodeLen ++ (c.fruss stack).take c.fruIdSubstructSize)

end FruCallOutEntry

/-- What `flattenFruCallouts` writes, for a vector that `maxFruCallouts` has cut. -/
def flattenFruCallouts (stack : Nat → UInt8) (coVec : List FruCallOutEntry) : Bytes :=
  if coVec = [] then []
  else [0xC0, 0x00] ++ u16 (UInt16.ofNat (fruCalloutFlatSize coVec / 4)) ++
    coVec.flatMap (·.bytes stack)

/-- `n` bytes at an offset. -/
def field (offset n : Nat) (bs : Bytes) : Option Bytes :=
  if offset + n ≤ bs.length then some ((bs.drop offset).take n) else none

/-- A text of `l_fruss` that is only read under a condition.  `strncpy` reads no
further than a zero. -/
def readText (offset n : Nat) (c : Bool) (bs : Bytes) : Option Bytes :=
  if c then
    if offset + n ≤ bs.length ∨ 0 ∈ bs.drop offset then some (strncpy n (bs.drop offset))
    else none
  else some (zeros n)

/-- The callout behind `pelFRUCalloutHeader_t`, and the bytes it used. -/
def readFruCallout (fcpri fclclen : UInt8) (bs : Bytes) : Option (FruCallOutEntry × Nat) := do
  let loc ← field 0 fclclen.toNat bs
  let bs := bs.drop fclclen.toNat
  let fsslen ← (field 2 1 bs).bind List.head?
  let fssflags ← (field 3 1 bs).bind List.head?
  let c : FruCallOutEntry :=
    { priority := fruPriToHwasPri fcpri
      locCodeLen := fclclen.toNat
      locationCode := loc ++ zeros (PEL_LOC_CODE_SIZE - fclclen.toNat)
      fruCompType := fssflags
      partNumber := []
      ccin := []
      serialNumber := [] }
  let partNumber ← readText 4 PEL_PART_NUM_SIZE
    (c.has FAILING_COMP_TYPE_FRU_PN || c.has FAILING_COMP_TYPE_FRU_PRC) bs
  let ccin ← readText 12 PEL_CCIN_SIZE (c.has FAILING_COMP_TYPE_FRU_CCIN) bs
  let serialNumber ← readText 16 PEL_SERIAL_NUM_SIZE (c.has FAILING_COMP_TYPE_FRU_SN) bs
  pure ({ c with partNumber := partNumber, ccin := ccin, serialNumber := serialNumber },
    fclclen.toNat + fsslen.toNat)

/-- The loop of `unflattenFruCallouts`.  Every round uses at least the four bytes
of a header, so that as many rounds as there are bytes are enough. -/
def unflattenLoop (bs : Bytes) (bytesAvailable : Nat) :
    Nat → List FruCallOutEntry → Nat → Option (List FruCallOutEntry)
  | 0, coVec, _ => some coVec
  | fuel + 1, coVec, bytesUsed =>
    if bytesUsed < bytesAvailable then do
      let fcpri ← (field (bytesUsed + 2) 1 bs).bind List.head?
      let fclclen ← (field (bytesUsed + 3) 1 bs).bind List.head?
      if PEL_LOC_CODE_SIZE < fclclen.toNat then pure coVec
      else
        let (calloutEntry, used) ← readFruCallout fcpri fclclen (bs.drop (bytesUsed + 4))
        unflattenLoop bs bytesAvailable fuel (addFruCallout coVec calloutEntry)
          (bytesUsed + 4 + used)
    else some coVec

def unflattenFruCallouts (coVec : List FruCallOutEntry) (bs : Bytes) (flatSize : Nat) :
    Option (List FruCallOutEntry) := do
  let sslen ← field 2 2 bs
  let bytesAvailable := Wire.decode sslen * 4
  let bytesUsed := if flatSize < bytesAvailable then bytesAvailable else 4
  unflattenLoop bs bytesAvailable bytesAvailable coVec bytesUsed

/-! ## A callout is read back -/

variable {offset n : Nat} {bs : Bytes} {l coVec : List FruCallOutEntry} {co : FruCallOutEntry}

theorem field_append {front mid : Bytes} (rest : Bytes) (hfront : front.length = offset)
    (hmid : mid.length = n) :
    field offset n (front ++ (mid ++ rest)) = some mid := by
  have hle : offset + n ≤ (front ++ (mid ++ rest)).length := by
    rw [length_append, length_append, hfront, hmid]
    omega
  rw [field, if_pos hle, drop_left' hfront, take_left' hmid]

theorem field_of_append {mid : Bytes} (rest : Bytes) (h : field offset n bs = some mid) :
    field offset n (bs ++ rest) = some mid := by
  unfold field at h ⊢
  by_cases hle : offset + n ≤ bs.length
  · have hle' : offset + n ≤ (bs ++ rest).length := by
      rw [length_append]
      omega
    rw [if_pos hle] at h
    rw [if_pos hle', drop_append_of_le_length (by omega),
      take_append_of_le_length (by rw [length_drop]; omega)]
    exact h
  · rw [if_neg hle] at h
    exact absurd h (by simp)

theorem field_take {k : Nat} (h : offset + n ≤ k) :
    field offset n (bs.take k) = if offset + n ≤ bs.length then field offset n bs else none := by
  unfold field
  by_cases hle : offset + n ≤ bs.length
  · have hle' : offset + n ≤ (bs.take k).length := by
      rw [length_take]
      omega
    rw [if_pos hle', if_pos hle, if_pos hle, drop_take, take_take,
      Nat.min_eq_left (by omega)]
  · have hle' : ¬ offset + n ≤ (bs.take k).length := by
      rw [length_take]
      omega
    rw [if_neg hle', if_neg hle]

@[simp] theorem length_frussField (stack : Nat → UInt8) (offset n : Nat) (c : Bool) (s : Bytes) :
    (frussField stack offset n c s).length = n := by
  unfold frussField
  split <;> simp

namespace FruCallOutEntry

/-- What a callout is like that `addFruCalloutDataToSrc` builds when the location
code with its terminator is not longer than its array (of a longer one the text
is cut and the length is not): the texts fill their arrays, cut or padded with
zeros, the location code has a terminator and a length that is a multiple of
four, and a text is there only with its bit.  CCIN and serial number come only
with a part number. -/
structure Built (c : FruCallOutEntry) : Prop where
  location : c.locationCode = c.locationCode.take c.locCodeLen ++
    zeros (PEL_LOC_CODE_SIZE - c.locCodeLen)
  locationSize : c.locationCode.length = PEL_LOC_CODE_SIZE
  terminated : 0 ∈ c.locationCode
  locCodeLen_le : c.locCodeLen ≤ PEL_LOC_CODE_SIZE
  aligned : c.locCodeLen % 4 = 0
  partNumber : c.partNumber = strncpy PEL_PART_NUM_SIZE c.partNumber
  ccin : c.ccin = strncpy PEL_CCIN_SIZE c.ccin
  serialNumber : c.serialNumber = strncpy PEL_SERIAL_NUM_SIZE c.serialNumber
  noPartNumber : c.has FAILING_COMP_TYPE_FRU_PN = false →
    c.has FAILING_COMP_TYPE_FRU_PRC = false → c.partNumber = zeros PEL_PART_NUM_SIZE
  noCcin : c.has FAILING_COMP_TYPE_FRU_CCIN = false → c.ccin = zeros PEL_CCIN_SIZE
  noSerialNumber : c.has FAILING_COMP_TYPE_FRU_SN = false →
    c.serialNumber = zeros PEL_SERIAL_NUM_SIZE
  onlyWithPart : c.has FAILING_COMP_TYPE_FRU_CCIN = true ∨ c.has FAILING_COMP_TYPE_FRU_SN = true →
    c.has FAILING_COMP_TYPE_FRU_PN = true ∧ c.has FAILING_COMP_TYPE_FRU_PRC = false

end FruCallOutEntry

theorem setErrlString_eq (n : Nat) (value : Bytes) (nullTerm : Bool) :
    setErrlString n value nullTerm = strncpy n (setErrlString n value nullTerm) := by
  have hset : ∃ s, setErrlString n value nullTerm = strncpy n s := by
    unfold setErrlString
    set valueLen := if nullTerm then min (cstr value).length (n - 1)
      else min (cstr value).length n with hvalueLen
    have hle : valueLen ≤ n := by
      rw [hvalueLen]
      split <;> omega
    have hlen : ((cstr value).take valueLen).length = valueLen := by
      refine length_take_of_le ?_
      rw [hvalueLen]
      split <;> omega
    have htext : cstr ((cstr value).take valueLen) = (cstr value).take valueLen := by
      refine takeWhile_eq_self_iff.mpr fun b hb => ?_
      exact all_eq_true.mp all_takeWhile b (mem_of_mem_take hb)
    refine ⟨(cstr value).take valueLen, ?_⟩
    rw [strncpy, take_of_length_le (by rw [hlen]; exact hle), htext, hlen]
  obtain ⟨s, hs⟩ := hset
  exact (strncpy_eq_self hs).symm

/-- A part is called out as the reader expects it when its location code fits. -/
theorem hwCallout_built (chassis location fru ccin serial : Bytes) (priority : Nat)
    (hfits : (fullLocationCode chassis location).length ≤ PEL_LOC_CODE_SIZE) :
    (hwCallout chassis location fru ccin serial priority).Built := by
  have htext : cstr (fullLocationCode chassis location) =
      cstr chassis ++ ['-'.toUInt8] ++ cstr location := by
    have hnonzero : ∀ b ∈ cstr chassis ++ ['-'.toUInt8] ++ cstr location, (b != 0) = true := by
      intro b hb
      simp only [mem_append, mem_singleton] at hb
      rcases hb with (hb | rfl) | hb
      · exact all_eq_true.mp all_takeWhile b hb
      · decide
      · exact all_eq_true.mp all_takeWhile b hb
    rw [cstr, fullLocationCode, takeWhile_append_of_pos hnonzero]
    simp
  have hlen : (cstr (fullLocationCode chassis location)).length + 1 =
      (fullLocationCode chassis location).length := by
    rw [htext, fullLocationCode]
    simp only [length_append, length_cons, length_nil]
  have hlocation : (hwCallout chassis location fru ccin serial priority).locationCode =
      cstr (fullLocationCode chassis location) ++
        zeros (PEL_LOC_CODE_SIZE - (cstr (fullLocationCode chassis location)).length) := by
    have hmin : min (cstr (fullLocationCode chassis location)).length (PEL_LOC_CODE_SIZE - 1) =
        (cstr (fullLocationCode chassis location)).length := by omega
    show setErrlString _ _ true = _
    rw [setErrlString, if_pos rfl, hmin, take_length]
  have hhas : ∀ flag, (hwCallout chassis location fru ccin serial priority).has flag =
      ((0x1D : UInt8) &&& flag != 0) := fun _ => rfl
  rw [PEL_LOC_CODE_SIZE] at hfits
  refine ⟨?_, ?_, ?_, ?_, ?_, setErrlString_eq _ _ _, setErrlString_eq _ _ _,
    setErrlString_eq _ _ _, fun h => absurd h (by rw [hhas]; decide),
    fun h => absurd h (by rw [hhas]; decide), fun h => absurd h (by rw [hhas]; decide),
    fun _ => by rw [hhas, hhas]; decide⟩
  · rw [hlocation]
    show _ = List.take (align4 _) _ ++ zeros (PEL_LOC_CODE_SIZE - align4 _)
    have hle : (cstr (fullLocationCode chassis location)).length ≤
        align4 (fullLocationCode chassis location).length := by
      rw [align4]
      omega
    have hzeros : zeros (PEL_LOC_CODE_SIZE - (cstr (fullLocationCode chassis location)).length) =
        zeros (align4 (fullLocationCode chassis location).length -
          (cstr (fullLocationCode chassis location)).length) ++
        zeros (PEL_LOC_CODE_SIZE - align4 (fullLocationCode chassis location).length) := by
      rw [zeros, zeros, zeros, replicate_append_replicate]
      congr 1
      rw [PEL_LOC_CODE_SIZE, align4] at *
      omega
    rw [take_append, take_of_length_le hle, hzeros, take_left' (length_zeros _),
      append_assoc]
  · rw [hlocation, length_append, length_zeros, PEL_LOC_CODE_SIZE]
    omega
  · rw [hlocation]
    refine mem_append_right _ (mem_replicate.mpr ⟨?_, rfl⟩)
    rw [PEL_LOC_CODE_SIZE]
    omega
  · show align4 _ ≤ PEL_LOC_CODE_SIZE
    rw [align4, PEL_LOC_CODE_SIZE]
    omega
  · show align4 _ % 4 = 0
    rw [align4]
    omega

theorem procedureCallout_built (isolationProcedure : Bytes) (priority : Nat) :
    (procedureCallout isolationProcedure priority).Built := by
  have hhas : ∀ flag, (procedureCallout isolationProcedure priority).has flag =
      ((0x42 : UInt8) &&& flag != 0) := fun _ => rfl
  refine ⟨rfl, rfl, ?_, Nat.zero_le _, rfl, setErrlString_eq _ _ _, (strncpy_zeros _).symm,
    (strncpy_zeros _).symm, fun _ h => absurd h (by rw [hhas]; decide), fun _ => rfl,
    fun _ => rfl, fun h => absurd h (by rw [hhas, hhas]; decide)⟩
  exact mem_replicate.mpr ⟨by decide, rfl⟩

namespace FruCallOutEntry

variable {c : FruCallOutEntry} (stack : Nat → UInt8)

theorem fruIdSubstructSize_le (c : FruCallOutEntry) : c.fruIdSubstructSize ≤ 28 := by
  unfold fruIdSubstructSize
  split
  · decide
  · split <;> decide

theorem le_fruIdSubstructSize (c : FruCallOutEntry) : 4 ≤ c.fruIdSubstructSize := by
  unfold fruIdSubstructSize
  split
  · decide
  · split <;> decide

theorem fruIdSubstructSize_mod (c : FruCallOutEntry) : c.fruIdSubstructSize % 4 = 0 := by
  unfold fruIdSubstructSize
  split
  · decide
  · split <;> decide

@[simp] theorem length_frusshead (c : FruCallOutEntry) : c.frusshead.length = 4 := by
  simp [frusshead]

@[simp] theorem length_fruss (c : FruCallOutEntry) : (c.fruss stack).length = 28 := by
  simp [fruss, PEL_PART_NUM_SIZE, PEL_CCIN_SIZE, PEL_SERIAL_NUM_SIZE]

theorem Built.length_bytes (h : c.Built) : (c.bytes stack).length = c.flatSize := by
  have hloc := h.locCodeLen_le
  have hsub := c.fruIdSubstructSize_le
  rw [← h.locationSize] at hloc
  rw [bytes, length_append, length_append, length_take_of_le hloc,
    length_take_of_le (by rw [length_fruss]; exact hsub), flatSize, frucoheader]
  simp only [length_cons, length_nil]
  omega

theorem fruIdSubstructSize_part (hpn : c.has FAILING_COMP_TYPE_FRU_PN = true)
    (hprc : c.has FAILING_COMP_TYPE_FRU_PRC = false) : c.fruIdSubstructSize = 28 := by
  simp [fruIdSubstructSize, hpn, hprc]

theorem le_fruIdSubstructSize_of_text
    (h : (c.has FAILING_COMP_TYPE_FRU_PN || c.has FAILING_COMP_TYPE_FRU_PRC) = true) :
    12 ≤ c.fruIdSubstructSize := by
  unfold fruIdSubstructSize
  by_cases hprc : c.has FAILING_COMP_TYPE_FRU_PRC = true
  · rw [if_pos hprc]
    decide
  · rw [Bool.not_eq_true] at hprc
    rw [hprc, Bool.or_false] at h
    simp [hprc, h]

theorem readText_of {offset n : Nat} {cond : Bool} {s bs : Bytes} (rest : Bytes)
    (hs : s = strncpy n s) (hno : cond = false → s = zeros n)
    (hfield : cond = true → field offset n bs = some s) :
    readText offset n cond (bs ++ rest) = some s := by
  cases cond with
  | false =>
    rw [hno rfl]
    rfl
  | true =>
    have h := field_of_append rest (hfield rfl)
    unfold field at h
    split at h
    · rename_i hle
      have htake : strncpy n ((bs ++ rest).drop offset) = strncpy n s := by
        rw [← Option.some.inj h, strncpy, strncpy, take_take, Nat.min_self]
      rw [readText, if_pos rfl, if_pos (.inl hle), htake, ← hs]
    · exact absurd h (by simp)

variable (c) in
/-- The record as the reader finds it: the fields that are written, at their
offsets. -/
theorem field_fruss {offset n : Nat} {cond : Bool} {s mid : Bytes} (front rest : Bytes)
    (hfruss : c.fruss stack = front ++ (mid ++ rest)) (hmid : mid = frussField stack offset n cond s)
    (hfront : front.length = offset) (hin : offset + n ≤ c.fruIdSubstructSize)
    (hs : s = strncpy n s) (hcond : cond = true) :
    field offset n ((c.fruss stack).take c.fruIdSubstructSize) = some s := by
  have hlen : mid.length = n := by
    rw [hmid, length_frussField]
  have hle : offset + n ≤ (c.fruss stack).length := by
    rw [length_fruss]
    exact Nat.le_trans hin c.fruIdSubstructSize_le
  have hsmid : mid = s := by
    rw [hmid, frussField, if_pos hcond, ← hs]
  rw [field_take hin, if_pos hle, hfruss, field_append rest hfront hlen, hsmid]

theorem Built.readFruCallout_bytes (h : c.Built) (rest : Bytes) :
    readFruCallout (hwasPriToFruPri c.priority) (UInt8.ofNat c.locCodeLen)
        (c.locationCode.take c.locCodeLen ++
          ((c.fruss stack).take c.fruIdSubstructSize ++ rest)) =
      some (c.recoded, c.locCodeLen + c.fruIdSubstructSize) := by
  have hloc : c.locCodeLen ≤ 80 := h.locCodeLen_le
  have hlen : (UInt8.ofNat c.locCodeLen).toNat = c.locCodeLen := by
    rw [UInt8.toNat_ofNat']
    omega
  have hlocLen : (c.locationCode.take c.locCodeLen).length = c.locCodeLen :=
    length_take_of_le (by rw [h.locationSize]; exact hloc)
  have hfield : field 0 c.locCodeLen (c.locationCode.take c.locCodeLen ++
      ((c.fruss stack).take c.fruIdSubstructSize ++ rest)) =
        some (c.locationCode.take c.locCodeLen) := by
    show field 0 c.locCodeLen ([] ++ (c.locationCode.take c.locCodeLen ++ _)) = _
    exact field_append _ rfl hlocLen
  have hsub := c.le_fruIdSubstructSize
  have hsub' := c.fruIdSubstructSize_le
  -- the two bytes of the record that are always there
  have hhead : (c.fruss stack).take c.fruIdSubstructSize =
      c.frusshead ++ ((c.fruss stack).drop 4).take (c.fruIdSubstructSize - 4) := by
    have hdrop : c.fruss stack = c.frusshead ++ (c.fruss stack).drop 4 := by
      rw [fruss, drop_left' c.length_frusshead]
    conv_lhs => rw [hdrop]
    rw [take_append, take_of_length_le (by rw [length_frusshead]; exact hsub),
      length_frusshead]
  have hfsslen : (UInt8.ofNat c.fruIdSubstructSize).toNat = c.fruIdSubstructSize := by
    rw [UInt8.toNat_ofNat']
    omega
  have hlenByte : (field 2 1 ((c.fruss stack).take c.fruIdSubstructSize ++ rest)).bind List.head? =
      some (UInt8.ofNat c.fruIdSubstructSize) := by
    have h2 : field 2 1 ((c.fruss stack).take c.fruIdSubstructSize) =
        some [UInt8.ofNat c.fruIdSubstructSize] := by
      rw [hhead, frusshead, append_assoc, append_assoc]
      exact field_append _ (length_u16 _) rfl
    rw [field_of_append rest h2]
    rfl
  have hflagByte : (field 3 1 ((c.fruss stack).take c.fruIdSubstructSize ++ rest)).bind
      List.head? = some c.fruCompType := by
    have h3 : field 3 1 ((c.fruss stack).take c.fruIdSubstructSize) = some [c.fruCompType] := by
      rw [hhead, frusshead, ← append_assoc (u16 _), append_assoc]
      exact field_append _ (by simp) rfl
    rw [field_of_append rest h3]
    rfl
  -- the texts
  have hpn : readText 4 PEL_PART_NUM_SIZE
      (c.has FAILING_COMP_TYPE_FRU_PN || c.has FAILING_COMP_TYPE_FRU_PRC)
      ((c.fruss stack).take c.fruIdSubstructSize ++ rest) = some c.partNumber := by
    refine readText_of rest h.partNumber (fun hno => ?_) (fun hcond => ?_)
    · rw [Bool.or_eq_false_iff] at hno
      exact h.noPartNumber hno.1 hno.2
    · exact c.field_fruss stack c.frusshead _ rfl rfl c.length_frusshead
        (le_fruIdSubstructSize_of_text hcond) h.partNumber hcond
  have hccin : readText 12 PEL_CCIN_SIZE (c.has FAILING_COMP_TYPE_FRU_CCIN)
      ((c.fruss stack).take c.fruIdSubstructSize ++ rest) = some c.ccin := by
    refine readText_of rest h.ccin h.noCcin fun hcond => ?_
    have hpart := h.onlyWithPart (.inl hcond)
    have hfruss : c.fruss stack = (c.frusshead ++ frussField stack 4 PEL_PART_NUM_SIZE
        (c.has FAILING_COMP_TYPE_FRU_PN || c.has FAILING_COMP_TYPE_FRU_PRC) c.partNumber) ++
        (frussField stack 12 PEL_CCIN_SIZE (c.has FAILING_COMP_TYPE_FRU_CCIN) c.ccin ++
          frussField stack 16 PEL_SERIAL_NUM_SIZE (c.has FAILING_COMP_TYPE_FRU_SN)
            c.serialNumber) := by
      rw [fruss, append_assoc]
    refine c.field_fruss stack _ _ hfruss rfl ?_ ?_ h.ccin hcond
    · rw [length_append, length_frusshead, length_frussField]
      rfl
    · rw [fruIdSubstructSize_part hpart.1 hpart.2]
      decide
  have hsn : readText 16 PEL_SERIAL_NUM_SIZE (c.has FAILING_COMP_TYPE_FRU_SN)
      ((c.fruss stack).take c.fruIdSubstructSize ++ rest) = some c.serialNumber := by
    refine readText_of rest h.serialNumber h.noSerialNumber fun hcond => ?_
    have hpart := h.onlyWithPart (.inr hcond)
    have hfruss : c.fruss stack = (c.frusshead ++ (frussField stack 4 PEL_PART_NUM_SIZE
        (c.has FAILING_COMP_TYPE_FRU_PN || c.has FAILING_COMP_TYPE_FRU_PRC) c.partNumber ++
        frussField stack 12 PEL_CCIN_SIZE (c.has FAILING_COMP_TYPE_FRU_CCIN) c.ccin)) ++
        (frussField stack 16 PEL_SERIAL_NUM_SIZE (c.has FAILING_COMP_TYPE_FRU_SN)
          c.serialNumber ++ []) := by
      rw [fruss, append_nil, append_assoc, append_assoc]
    refine c.field_fruss stack _ _ hfruss rfl ?_ ?_ h.serialNumber hcond
    · rw [length_append, length_append, length_frusshead, length_frussField,
        length_frussField]
      rfl
    · rw [fruIdSubstructSize_part hpart.1 hpart.2]
      decide
  unfold readFruCallout
  rw [hlen, hfield]
  simp only [Option.bind_eq_bind, Option.bind_some]
  rw [drop_left' hlocLen, hlenByte, hflagByte]
  simp only [Option.bind_some]
  have hsame : ∀ flag,
      has ⟨fruPriToHwasPri (hwasPriToFruPri c.priority), c.locCodeLen,
        c.locationCode.take c.locCodeLen ++ zeros (PEL_LOC_CODE_SIZE - c.locCodeLen),
        c.fruCompType, [], [], []⟩ flag = c.has flag := fun _ => rfl
  rw [hsame, hsame, hsame, hsame, hpn, hccin, hsn, hfsslen, ← h.location]
  rfl

/-- Two callouts of which `addFruCallout` keeps only one: they name one location,
and one of them has no part number or both have the same. -/
def Clash (c d : FruCallOutEntry) : Prop :=
  cstr c.locationCode = cstr d.locationCode ∧
    (cstr c.partNumber = [] ∨ cstr d.partNumber = [] ∨ cstr c.partNumber = cstr d.partNumber)

instance (c d : FruCallOutEntry) : Decidable (c.Clash d) := inferInstanceAs (Decidable (_ ∧ _))

theorem Clash.symm {c d : FruCallOutEntry} (h : c.Clash d) : d.Clash c := by
  refine ⟨h.1.symm, ?_⟩
  rcases h.2 with hc | hd | hsame
  · exact .inr (.inl hc)
  · exact .inl hd
  · exact .inr (.inr hsame.symm)

end FruCallOutEntry

/-! ## The vector of callouts -/

open FruCallOutEntry

/-- No two callouts of the vector clash. -/
def Apart (coVec : List FruCallOutEntry) : Prop := coVec.Pairwise fun c d => ¬ c.Clash d

instance (coVec : List FruCallOutEntry) : Decidable (Apart coVec) :=
  inferInstanceAs (Decidable (List.Pairwise _ _))

/-- The callouts stand by priority, the highest first. -/
def ByPriority (coVec : List FruCallOutEntry) : Prop :=
  coVec.Pairwise fun c d => d.priority ≤ c.priority

theorem Apart.perm {l' : List FruCallOutEntry} (h : Apart l) (hp : l'.Perm l) : Apart l' :=
  (hp.pairwise_iff fun hcd hdc => hcd hdc.symm).mpr h

theorem checkForDuplicateCallout_sublist (co : FruCallOutEntry) (coVec : List FruCallOutEntry) :
    (checkForDuplicateCallout co coVec).2.Sublist coVec := by
  fun_induction checkForDuplicateCallout co coVec with
  | case1 => exact .refl _
  | case2 => exact .refl _
  | case3 it coVec => exact sublist_cons_self it coVec
  | case4 it coVec => exact sublist_cons_self it coVec
  | case5 => exact .refl _
  | case6 it coVec next _ _ _ _ ih => exact ih.cons_cons it
  | case7 it coVec next _ ih => exact ih.cons_cons it

/-- When the new callout is not dropped, it clashes with none of those that
stay. -/
theorem checkForDuplicateCallout_apart (h : Apart coVec)
    (hkeep : (checkForDuplicateCallout co coVec).1 = false) :
    ∀ d ∈ (checkForDuplicateCallout co coVec).2, ¬ co.Clash d := by
  fun_induction checkForDuplicateCallout co coVec with
  | case1 => exact fun d hd => absurd hd not_mem_nil
  | case2 => exact absurd hkeep (by simp)
  | case3 it coVec hloc hpn hit =>
    -- what clashes with the new one would clash with the callout it replaces
    intro d hd hclash
    exact (pairwise_cons.mp h).1 d hd ⟨hloc.symm.trans hclash.1, .inl hit⟩
  | case4 it coVec hloc hpn hit hsame hpri =>
    intro d hd hclash
    refine (pairwise_cons.mp h).1 d hd ⟨hloc.symm.trans hclash.1, ?_⟩
    rw [← hsame]
    exact hclash.2
  | case5 => exact absurd hkeep (by simp)
  | case6 it coVec next hloc hpn hit hdiff ih =>
    intro d hd
    rcases mem_cons.mp hd with rfl | hd
    · rintro ⟨-, hempty | hempty | hsame⟩
      · exact hpn hempty
      · exact hit hempty
      · exact hdiff hsame
    · exact ih (pairwise_cons.mp h).2 hkeep d hd
  | case7 it coVec next hloc ih =>
    intro d hd
    rcases mem_cons.mp hd with rfl | hd
    · exact fun hclash => hloc hclash.1
    · exact ih (pairwise_cons.mp h).2 hkeep d hd

theorem checkForDuplicateCallout_of_apart (h : ∀ d ∈ coVec, ¬ co.Clash d) :
    checkForDuplicateCallout co coVec = (false, coVec) := by
  induction coVec with
  | nil => rfl
  | cons it coVec ih =>
    have hit := h it mem_cons_self
    have hrest := ih fun d hd => h d (mem_cons_of_mem it hd)
    rw [checkForDuplicateCallout, hrest]
    by_cases hloc : cstr co.locationCode = cstr it.locationCode
    · rw [if_pos hloc, if_neg fun hco => hit ⟨hloc, .inl hco⟩,
        if_neg fun hempty => hit ⟨hloc, .inr (.inl hempty)⟩,
        if_neg fun hsame => hit ⟨hloc, .inr (.inr hsame)⟩]
    · rw [if_neg hloc]

theorem Apart.addFruCallout (h : Apart coVec) (co : FruCallOutEntry) :
    Apart (addFruCallout coVec co) := by
  have hrest : Apart (checkForDuplicateCallout co coVec).2 :=
    h.sublist (checkForDuplicateCallout_sublist co coVec)
  unfold Pel.addFruCallout
  dsimp only
  split
  · exact hrest
  · rename_i hdrop
    have hkeep := checkForDuplicateCallout_apart h (Bool.eq_false_iff.mpr hdrop)
    refine Apart.perm ?_ (Util.QSort.sort_perm _ _)
    refine pairwise_append.mpr ⟨hrest, pairwise_singleton _ _, fun d hd c hc => ?_⟩
    rw [mem_singleton.mp hc]
    exact fun hclash => hkeep d hd hclash.symm

theorem ByPriority.addFruCallout (h : ByPriority coVec) (co : FruCallOutEntry) :
    ByPriority (addFruCallout coVec co) := by
  unfold Pel.addFruCallout
  dsimp only
  split
  · exact h.sublist (checkForDuplicateCallout_sublist co coVec)
  · have hsorted := Util.QSort.sort_pairwise (fun a b => decide (b.priority < a.priority))
      ((checkForDuplicateCallout co coVec).2 ++ [co]) (fun a b hab => by simp at hab ⊢; omega)
      (fun a b c hba hcb => by simp at hba hcb ⊢; omega)
    exact hsorted.imp fun hab => by simpa using hab

theorem forall_addFruCallout {P : FruCallOutEntry → Prop} (h : ∀ d ∈ coVec, P d) (hco : P co) :
    ∀ d ∈ addFruCallout coVec co, P d := by
  intro d hd
  have hsub := checkForDuplicateCallout_sublist co coVec
  unfold Pel.addFruCallout at hd
  dsimp only at hd
  split at hd
  · exact h d (hsub.subset hd)
  · rcases mem_append.mp ((Util.QSort.sort_perm _ _).mem_iff.mp hd) with hd | hd
    · exact h d (hsub.subset hd)
    · rw [mem_singleton.mp hd]
      exact hco

theorem foldl_addFruCallout (h : Apart (coVec ++ l)) :
    (l.foldl addFruCallout coVec).Perm (coVec ++ l) := by
  induction l generalizing coVec with
  | nil => rw [foldl_nil, append_nil]
  | cons c l ih =>
    have hc : ∀ d ∈ coVec, ¬ c.Clash d := fun d hd hclash =>
      (pairwise_append.mp h).2.2 d hd c mem_cons_self hclash.symm
    have hadd : (addFruCallout coVec c).Perm (coVec ++ [c]) := by
      rw [addFruCallout, checkForDuplicateCallout_of_apart hc]
      exact Util.QSort.sort_perm _ _
    have hperm : (addFruCallout coVec c ++ l).Perm (coVec ++ c :: l) := by
      have hcons : coVec ++ c :: l = coVec ++ [c] ++ l := by
        rw [append_assoc]
        rfl
      rw [hcons]
      exact hadd.append_right l
    rw [foldl_cons]
    exact (ih (h.perm hperm)).trans hperm

theorem foldl_byPriority (l : List FruCallOutEntry) (h : ByPriority coVec) :
    ByPriority (l.foldl addFruCallout coVec) := by
  induction l generalizing coVec with
  | nil => exact h
  | cons c l ih => exact ih (h.addFruCallout c)

/-! ## The vector is read back -/

theorem Apart.recoded (h : Apart l) :
    Apart (l.map FruCallOutEntry.recoded) :=
  pairwise_map.mpr h

theorem fruCalloutFlatSize_perm {l' : List FruCallOutEntry} (h : l.Perm l') :
    fruCalloutFlatSize l = fruCalloutFlatSize l' := by
  rw [fruCalloutFlatSize, fruCalloutFlatSize, (h.map FruCallOutEntry.flatSize).sum_nat]

theorem fruCalloutFlatSize_recoded (l : List FruCallOutEntry) :
    fruCalloutFlatSize (l.map FruCallOutEntry.recoded) = fruCalloutFlatSize l := by
  rw [fruCalloutFlatSize, map_map, fruCalloutFlatSize]
  rfl

theorem length_flatMap_bytes (stack : Nat → UInt8) (h : ∀ c ∈ l, c.Built) :
    (l.flatMap (·.bytes stack)).length = (l.map FruCallOutEntry.flatSize).sum := by
  rw [length_flatMap]
  congr 1
  exact map_congr_left fun c hc => (h c hc).length_bytes stack

theorem sum_flatSize_mod (h : ∀ c ∈ l, c.Built) :
    (l.map FruCallOutEntry.flatSize).sum % 4 = 0 := by
  induction l with
  | nil => rfl
  | cons c l ih =>
    have hrest := ih fun d hd => h d (mem_cons_of_mem c hd)
    have haligned := (h c mem_cons_self).aligned
    have hsub := c.fruIdSubstructSize_mod
    rw [map_cons, sum_cons, FruCallOutEntry.flatSize]
    omega

theorem sum_flatSize_le (h : ∀ c ∈ l, c.Built) :
    (l.map FruCallOutEntry.flatSize).sum ≤ 112 * l.length := by
  induction l with
  | nil => exact Nat.le_refl _
  | cons c l ih =>
    have hrest := ih fun d hd => h d (mem_cons_of_mem c hd)
    have hloc : c.locCodeLen ≤ 80 := (h c mem_cons_self).locCodeLen_le
    have hsub := c.fruIdSubstructSize_le
    rw [map_cons, sum_cons, FruCallOutEntry.flatSize, length_cons]
    omega

theorem length_le_sum_flatSize (l : List FruCallOutEntry) :
    l.length ≤ (l.map FruCallOutEntry.flatSize).sum := by
  induction l with
  | nil => exact Nat.le_refl _
  | cons c l ih =>
    rw [map_cons, sum_cons, FruCallOutEntry.flatSize, length_cons]
    omega

theorem unflattenLoop_flatMap (stack : Nat → UInt8) {rest : Bytes} {bytesAvailable : Nat}
    (h : ∀ c ∈ l, c.Built) {fuel bytesUsed : Nat} (coVec : List FruCallOutEntry)
    (hfuel : l.length ≤ fuel)
    (hbs : ∃ front, bs = front ++ (l.flatMap (·.bytes stack) ++ rest) ∧ front.length = bytesUsed)
    (havailable : bytesAvailable = bytesUsed + (l.map FruCallOutEntry.flatSize).sum) :
    unflattenLoop bs bytesAvailable fuel coVec bytesUsed =
      some ((l.map FruCallOutEntry.recoded).foldl addFruCallout coVec) := by
  induction l generalizing fuel bytesUsed coVec with
  | nil =>
    cases fuel with
    | zero => rfl
    | succ fuel =>
      have hdone : ¬ bytesUsed < bytesAvailable := by
        rw [havailable, map_nil, sum_nil]
        omega
      rw [unflattenLoop, if_neg hdone]
      rfl
  | cons c l ih =>
    obtain ⟨front, hbs, hfront⟩ := hbs
    have hbuilt := h c mem_cons_self
    have hloc : c.locCodeLen ≤ 80 := hbuilt.locCodeLen_le
    cases fuel with
    | zero => exact absurd hfuel (by simp)
    | succ fuel =>
      have hlt : bytesUsed < bytesAvailable := by
        rw [havailable, map_cons, sum_cons, FruCallOutEntry.flatSize]
        omega
      have hlen : (UInt8.ofNat c.locCodeLen).toNat = c.locCodeLen := by
        rw [UInt8.toNat_ofNat']
        omega
      -- the bytes from the callout on
      have hcallout : bs = front ++ (c.frucoheader ++ (c.locationCode.take c.locCodeLen ++
          ((c.fruss stack).take c.fruIdSubstructSize ++
            (l.flatMap (·.bytes stack) ++ rest)))) := by
        rw [hbs, flatMap_cons, FruCallOutEntry.bytes]
        simp only [append_assoc]
      have hpri : (field (bytesUsed + 2) 1 bs).bind List.head? =
          some (hwasPriToFruPri c.priority) := by
        have hfield : field (bytesUsed + 2) 1 bs = some [hwasPriToFruPri c.priority] := by
          have hsplit : bs = (front ++ [UInt8.ofNat c.flatSize, 0x20 ||| 0x08]) ++
              ([hwasPriToFruPri c.priority] ++ ([UInt8.ofNat c.locCodeLen] ++
                (c.locationCode.take c.locCodeLen ++ ((c.fruss stack).take c.fruIdSubstructSize ++
                  (l.flatMap (·.bytes stack) ++ rest))))) := by
            rw [hcallout, frucoheader]
            simp
          rw [hsplit]
          exact field_append _ (by simp [hfront]) rfl
        rw [hfield]
        rfl
      have hfclclen : (field (bytesUsed + 3) 1 bs).bind List.head? =
          some (UInt8.ofNat c.locCodeLen) := by
        have hfield : field (bytesUsed + 3) 1 bs = some [UInt8.ofNat c.locCodeLen] := by
          have hsplit : bs = (front ++ [UInt8.ofNat c.flatSize, 0x20 ||| 0x08,
              hwasPriToFruPri c.priority]) ++ ([UInt8.ofNat c.locCodeLen] ++
                (c.locationCode.take c.locCodeLen ++ ((c.fruss stack).take c.fruIdSubstructSize ++
                  (l.flatMap (·.bytes stack) ++ rest)))) := by
            rw [hcallout, frucoheader]
            simp
          rw [hsplit]
          exact field_append _ (by simp [hfront]) rfl
        rw [hfield]
        rfl
      have hdrop : bs.drop (bytesUsed + 4) = c.locationCode.take c.locCodeLen ++
          ((c.fruss stack).take c.fruIdSubstructSize ++ (l.flatMap (·.bytes stack) ++ rest)) := by
        rw [hcallout, ← append_assoc front]
        exact drop_left' (by simp [frucoheader, hfront])
      have hsmall : ¬ PEL_LOC_CODE_SIZE < (UInt8.ofNat c.locCodeLen).toNat := by
        rw [hlen, PEL_LOC_CODE_SIZE]
        omega
      rw [unflattenLoop, if_pos hlt, hpri, hfclclen]
      simp only [Option.bind_eq_bind, Option.bind_some]
      rw [if_neg hsmall, hdrop, hbuilt.readFruCallout_bytes stack]
      simp only [Option.bind_some]
      rw [ih (fun d hd => h d (mem_cons_of_mem c hd)) (addFruCallout coVec c.recoded)
        (by simpa using hfuel)]
      · rfl
      · refine ⟨front ++ c.bytes stack, ?_, ?_⟩
        · rw [hbs, flatMap_cons]
          simp only [append_assoc]
        · rw [length_append, hbuilt.length_bytes stack, hfront, FruCallOutEntry.flatSize]
          omega
      · rw [havailable, map_cons, sum_cons, FruCallOutEntry.flatSize]
        omega

/-- The callouts of a log are read back when the length that the section gives
leaves room for them. -/
theorem unflattenFruCallouts_flatten (stack : Nat → UInt8) (h : ∀ c ∈ l, c.Built) (hapart : Apart l)
    (hne : l ≠ []) (hmax : l.length ≤ MAX_FRU_CALLOUTS) (rest : Bytes) {flatSize : Nat}
    (hsize : fruCalloutFlatSize l ≤ flatSize) :
    ∃ coVec, unflattenFruCallouts [] (flattenFruCallouts stack l ++ rest) flatSize = some coVec ∧
      coVec.Perm (l.map FruCallOutEntry.recoded) ∧ ByPriority coVec := by
  have hmod := sum_flatSize_mod h
  have hle := sum_flatSize_le h
  have hlen := length_le_sum_flatSize l
  rw [MAX_FRU_CALLOUTS] at hmax
  have hwords : (UInt16.ofNat (fruCalloutFlatSize l / 4)).toNat = fruCalloutFlatSize l / 4 := by
    rw [UInt16.toNat_ofNat', fruCalloutFlatSize]
    omega
  have hbs : flattenFruCallouts stack l ++ rest =
      [0xC0, 0x00] ++ (u16 (UInt16.ofNat (fruCalloutFlatSize l / 4)) ++
        (l.flatMap (·.bytes stack) ++ rest)) := by
    rw [flattenFruCallouts, if_neg hne]
    simp only [append_assoc]
  have hsslen : field 2 2 (flattenFruCallouts stack l ++ rest) =
      some (u16 (UInt16.ofNat (fruCalloutFlatSize l / 4))) := by
    rw [hbs]
    exact field_append _ rfl (length_u16 _)
  have havailable : Wire.decode (u16 (UInt16.ofNat (fruCalloutFlatSize l / 4))) * 4 =
      fruCalloutFlatSize l := by
    have hlt : fruCalloutFlatSize l / 4 < 256 ^ 2 := by
      rw [fruCalloutFlatSize]
      omega
    rw [u16, hwords, Wire.decode_encode_of_lt hlt, fruCalloutFlatSize]
    omega
  have hloop : unflattenLoop (flattenFruCallouts stack l ++ rest) (fruCalloutFlatSize l)
      (fruCalloutFlatSize l) [] 4 =
        some ((l.map FruCallOutEntry.recoded).foldl addFruCallout []) := by
    have hfront : ∃ front, flattenFruCallouts stack l ++ rest =
        front ++ (l.flatMap (·.bytes stack) ++ rest) ∧ front.length = 4 :=
      ⟨[0xC0, 0x00] ++ u16 (UInt16.ofNat (fruCalloutFlatSize l / 4)),
        by rw [hbs, append_assoc], by simp⟩
    refine unflattenLoop_flatMap stack h [] ?_ hfront rfl
    rw [fruCalloutFlatSize]
    omega
  have hperm : ((l.map FruCallOutEntry.recoded).foldl addFruCallout []).Perm
      ([] ++ l.map FruCallOutEntry.recoded) := foldl_addFruCallout hapart.recoded
  refine ⟨_, ?_, hperm, foldl_byPriority _ .nil⟩
  rw [unflattenFruCallouts, hsslen]
  simp only [Option.bind_eq_bind, Option.bind_some]
  rw [havailable, if_neg (by omega)]
  exact hloop

end Hostboot.Errl.Pel
