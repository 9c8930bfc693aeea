import Hostboot.Lib.WordMemory
import Mathlib.Tactic.Ring

/-!
# Bit strings in memory

The class `BitString` of `prdfBitString.C` over a memory of CPU words: a length, the word at
which the buffer starts, and an offset in bits.  `Hostboot.Prdf.BitString` is the same class
seen as a list of bits, for strings that share no memory.

An assertion that fails ends the program, which is `none`.  Positions and lengths have 32
bits, and their sums are taken so.

Every operation is a loop over fields of at most one CPU word.  A field is read and written
right at any alignment (`getField_spec`, `setField_spec`), and a loop writes what its fields
say (`forChunks_spec`, `backChunks_spec`).
-/

namespace Hostboot.Prdf.InMemory

open Hostboot.Lib Hostboot.Lib.WordMem

abbrev CPU_WORD : Type := BitVec 32

/-- The memory. -/
abbrev Mem : Type := WordMem 32

def CPU_WORD_MASK : CPU_WORD := BitVec.allOnes 32

def PRDF_ASSERT (p : Prop) [Decidable p] : Option Unit := if p then some () else none

/-- `BitString`.  The buffer is given by its first word, and 0 is a null pointer. -/
structure BitString where
  bitLen : Nat
  bufAddr : Nat
  offset : Nat
  deriving DecidableEq, Repr

def getNumCpuWords (bitLen offset : Nat) : Nat := (bitLen + offset + 31) % 2 ^ 32 / 32

namespace BitString

/-! ## The functions of the source -/

/-- `getRelativePosition`: the position and the word. -/
def getRelativePosition (bs : BitString) (absPos : Nat) : Option (Nat × Nat) := do
  PRDF_ASSERT (bs.bufAddr ≠ 0)
  PRDF_ASSERT (absPos < bs.bitLen)
  let pos := (absPos + bs.offset) % 2 ^ 32
  some (pos % 32, bs.bufAddr + pos / 32)

/-- The field of `len` bits that starts in a word and may end in the next. -/
def readField (m : Mem) (relAddr relPos len : Nat) : CPU_WORD :=
  let len0 := if 32 < relPos + len then 32 - relPos else len
  let len1 := if 32 < relPos + len then len - len0 else 0
  let mask0 := CPU_WORD_MASK <<< (32 - len0)
  let mask1 := CPU_WORD_MASK <<< (32 - len1)
  let val := (m relAddr <<< relPos) &&& mask0
  if 32 < relPos + len then val ||| ((m (relAddr + 1) &&& mask1) >>> (32 - relPos)) else val

def getField (m : Mem) (bs : BitString) (pos len : Nat) : Option CPU_WORD := do
  PRDF_ASSERT (bs.bufAddr ≠ 0)
  PRDF_ASSERT (0 < len)
  PRDF_ASSERT (len ≤ 32)
  PRDF_ASSERT ((pos + len) % 2 ^ 32 ≤ bs.bitLen)
  let (relPos, relAddr) ← bs.getRelativePosition pos
  some (readField m relAddr relPos len)

/-- `*relAddr &= ~mask` and `*relAddr |= val`. -/
def setMasked (m : Mem) (relAddr : Nat) (mask val : CPU_WORD) : Mem :=
  let m := m.put relAddr (m relAddr &&& ~~~mask)
  m.put relAddr (m relAddr ||| val)

/-- A field written into a word and, where it ends there, into the next. -/
def writeField (m : Mem) (relAddr relPos len : Nat) (i_val : CPU_WORD) : Mem :=
  let mask := CPU_WORD_MASK <<< (32 - len)
  let val := i_val &&& mask
  let m := setMasked m relAddr (mask >>> relPos) (val >>> relPos)
  if 32 < relPos + len then
    setMasked m (relAddr + 1) (mask <<< (32 - relPos)) (val <<< (32 - relPos))
  else m

def setField (m : Mem) (bs : BitString) (pos len : Nat) (val : CPU_WORD) : Option Mem := do
  PRDF_ASSERT (bs.bufAddr ≠ 0)
  PRDF_ASSERT (0 < len)
  PRDF_ASSERT (len ≤ 32)
  PRDF_ASSERT ((pos + len) % 2 ^ 32 ≤ bs.bitLen)
  let (relPos, relAddr) ← bs.getRelativePosition pos
  some (writeField m relAddr relPos len val)

def isBitSet (m : Mem) (bs : BitString) (pos : Nat) : Option Bool :=
  (getField m bs pos 1).map fun val => decide (val ≠ 0#32)

def setFieldJustify (m : Mem) (bs : BitString) (pos len : Nat) (val : CPU_WORD) : Option Mem :=
  setField m bs pos len (val <<< (32 - len))

def setBit (m : Mem) (bs : BitString) (pos : Nat) : Option Mem := setFieldJustify m bs pos 1 1#32

def clearBit (m : Mem) (bs : BitString) (pos : Nat) : Option Mem := setFieldJustify m bs pos 1 0#32

/-- A loop forward over the chunks of `step` bits from `pos` to `endPos`, for a number of
turns. -/
def forChunks (body : Nat → Nat → Mem → Option Mem) (step endPos : Nat) :
    Nat → Nat → Mem → Option Mem
  | 0, _, _ => none
  | fuel + 1, pos, m =>
    if pos < endPos then
      (body pos (min step (endPos - pos)) m).bind
        (forChunks body step endPos fuel ((pos + step) % 2 ^ 32))
    else some m

/-- A loop backward over CPU words, from the position `pos` of 32 bits with a sign. -/
def backChunks (body : Nat → Nat → Mem → Option Mem) (actLen : Nat) : Nat → Int → Mem → Option Mem
  | 0, _, _ => none
  | fuel + 1, pos, m =>
    if 0 ≤ pos then
      (body pos.toNat (min (actLen - pos.toNat) 32) m).bind
        (backChunks body actLen fuel (pos - 32))
    else some m

/-- A position of 32 bits read with a sign. -/
def toInt32 (pos : Nat) : Int := if pos < 2 ^ 31 then pos else (pos : Int) - 2 ^ 32

def setPattern (m : Mem) (bs : BitString) (sPos sLen : Nat) (pattern : CPU_WORD) (pLen : Nat) :
    Option Mem := do
  PRDF_ASSERT (bs.bufAddr ≠ 0)
  PRDF_ASSERT (0 < sLen)
  PRDF_ASSERT ((sPos + sLen) % 2 ^ 32 ≤ bs.bitLen)
  PRDF_ASSERT (0 < pLen)
  PRDF_ASSERT (pLen ≤ 32)
  -- the parameter is a word of its own, here the only one
  let bso : BitString := ⟨pLen, 1, 32 - pLen⟩
  let endPos := (sPos + sLen) % 2 ^ 32
  forChunks (fun pos len m => do
    let val ← getField (fun _ => pattern) bso 0 len
    setField m bs pos len val) pLen endPos (sLen + 1) sPos m

/-- One turn of the loops of `setString`. -/
def copyChunk (sStr dStr : BitString) (sPos dPos pos len : Nat) (m : Mem) : Option Mem := do
  let value ← getField m sStr ((sPos + pos) % 2 ^ 32) len
  setField m dStr ((dPos + pos) % 2 ^ 32) len value

def setString (m : Mem) (bs sStr : BitString) (sPos sLen dPos : Nat) : Option Mem := do
  PRDF_ASSERT (sStr.bufAddr ≠ 0)
  PRDF_ASSERT (0 < sLen)
  PRDF_ASSERT ((sPos + sLen) % 2 ^ 32 ≤ sStr.bitLen)
  PRDF_ASSERT (bs.bufAddr ≠ 0)
  PRDF_ASSERT (dPos < bs.bitLen)
  let actLen := min sLen (bs.bitLen - dPos)
  let (sRelOffset, sRelAddr) ← sStr.getRelativePosition sPos
  let (dRelOffset, dRelAddr) ← bs.getRelativePosition dPos
  if dRelAddr = sRelAddr ∧ dRelOffset = sRelOffset then some m
  else if dRelAddr < sRelAddr ∨ (dRelAddr = sRelAddr ∧ dRelOffset < sRelOffset) then
    forChunks (copyChunk sStr bs sPos dPos) 32 actLen (actLen + 1) 0 m
  else
    let lastPos := (actLen - 1) / 32 * 32
    backChunks (copyChunk sStr bs sPos dPos) actLen (actLen + 1) (toInt32 lastPos) m

/-- One turn of the loop of `maskString`. -/
def maskChunk (bs mask : BitString) (pos len : Nat) (m : Mem) : Option Mem := do
  let dVal ← getField m bs pos len
  let sVal ← getField m mask pos len
  setField m bs pos len (dVal &&& ~~~sVal)

def maskString (m : Mem) (bs mask : BitString) : Option Mem :=
  let actLen := min bs.bitLen mask.bitLen
  forChunks (maskChunk bs mask) 32 actLen (actLen + 1) 0 m

/-! ## Strings that have their memory -/

/-- The number of the first bit in the memory. -/
def base (bs : BitString) : Nat := 32 * bs.bufAddr + bs.offset

/-- A buffer of `getNumCpuWords` words, which is what the constructor asks for, holds the
string. -/
structure Valid (bs : BitString) : Prop where
  nonnull : bs.bufAddr ≠ 0
  covers : bs.bitLen + bs.offset ≤ 32 * getNumCpuWords bs.bitLen bs.offset

variable {m m' : Mem} {bs sStr mask : BitString} {pos len sPos sLen dPos : Nat}

theorem Valid.lt (h : Valid bs) : bs.bitLen + bs.offset + 31 < 2 ^ 32 := by
  have hcovers := h.covers
  unfold getNumCpuWords at hcovers
  omega

@[simp] theorem assert_bind {α : Type} {p : Prop} [Decidable p] (hp : p) (k : Unit → Option α) :
    (PRDF_ASSERT p).bind k = k () := by
  rw [PRDF_ASSERT, if_pos hp]
  rfl

theorem getRelativePosition_eq (h : Valid bs) (hpos : pos < bs.bitLen) :
    bs.getRelativePosition pos =
      some ((pos + bs.offset) % 32, bs.bufAddr + (pos + bs.offset) / 32) := by
  have hlt := h.lt
  have hmod : (pos + bs.offset) % 2 ^ 32 = pos + bs.offset := Nat.mod_eq_of_lt (by omega)
  unfold getRelativePosition
  simp only [Option.bind_eq_bind]
  rw [assert_bind h.nonnull, assert_bind hpos, hmod]

/-! ## Fields -/

theorem getMsbD_mask {n : Nat} (hn : n ≤ 32) (i : Nat) :
    (CPU_WORD_MASK <<< (32 - n)).getMsbD i = decide (i < n) := by
  unfold CPU_WORD_MASK
  rw [BitVec.getMsbD_shiftLeft, BitVec.getMsbD_allOnes, decide_eq_decide]
  omega

variable {relPos a : Nat} {body : Nat → Nat → Mem → Option Mem}

/-- A bit behind the position `relPos` of a word, in this word or the next. -/
theorem bit_rel (m : Mem) {relAddr i : Nat} (hrel : relPos < 32) (hi : i < 32) :
    m.bit (32 * relAddr + relPos + i) =
      if relPos + i < 32 then (m relAddr).getMsbD (relPos + i)
      else (m (relAddr + 1)).getMsbD (relPos + i - 32) := by
  by_cases hfit : relPos + i < 32
  · rw [if_pos hfit, Nat.add_assoc, bit_word m relAddr hfit]
  · rw [if_neg hfit, ← bit_word m (relAddr + 1) (by omega)]
    congr 1
    omega

theorem getMsbD_readField {relAddr : Nat} (hrel : relPos < 32) (hlen : len ≤ 32) (i : Nat) :
    (readField m relAddr relPos len).getMsbD i =
      (decide (i < len) && m.bit (32 * relAddr + relPos + i)) := by
  by_cases hi : 32 ≤ i
  · rw [BitVec.getMsbD_of_ge _ _ hi, decide_eq_false (by omega), Bool.false_and]
  · have h32 : i < 32 := Nat.lt_of_not_le hi
    rw [bit_rel m hrel h32, Nat.add_comm relPos i]
    unfold readField
    dsimp only
    by_cases hcross : 32 < relPos + len
    · rw [if_pos hcross, if_pos hcross, if_pos hcross, BitVec.getMsbD_or, BitVec.getMsbD_and,
        BitVec.getMsbD_ushiftRight, BitVec.getMsbD_and, BitVec.getMsbD_shiftLeft,
        getMsbD_mask (by omega), getMsbD_mask (by omega), decide_eq_true h32, Bool.true_and]
      by_cases hfit : i + relPos < 32
      · -- the bit is in the first word
        rw [if_pos hfit, decide_eq_true (show i < 32 - relPos by omega),
          decide_eq_true (show i < len by omega)]
        simp
      · rw [if_neg hfit, decide_eq_false (show ¬ i < 32 - relPos by omega),
          show i - (32 - relPos) = i + relPos - 32 by omega,
          (decide_eq_decide.mpr (by omega) :
            decide (i + relPos - 32 < len - (32 - relPos)) = decide (i < len))]
        simp [Bool.and_comm]
    · rw [if_neg hcross, if_neg hcross, BitVec.getMsbD_and,
        BitVec.getMsbD_shiftLeft, getMsbD_mask hlen]
      by_cases hin : i < len
      · rw [if_pos (by omega), Bool.and_comm]
      · rw [decide_eq_false hin, Bool.and_false, Bool.false_and]

theorem getField_spec (m : Mem) (h : Valid bs) (hpos : 0 < len) (hlen : len ≤ 32)
    (hin : pos + len ≤ bs.bitLen) :
    ∃ val, getField m bs pos len = some val ∧
      ∀ i, val.getMsbD i = (decide (i < len) && m.bit (bs.base + pos + i)) := by
  have hlt := h.lt
  have hsum : (pos + len) % 2 ^ 32 ≤ bs.bitLen := by omega
  refine ⟨readField m (bs.bufAddr + (pos + bs.offset) / 32) ((pos + bs.offset) % 32) len, ?_,
    fun i => ?_⟩
  · unfold getField
    simp only [Option.bind_eq_bind]
    rw [assert_bind h.nonnull, assert_bind hpos, assert_bind hlen, assert_bind hsum,
      getRelativePosition_eq h (by omega)]
    rfl
  · rw [getMsbD_readField (Nat.mod_lt _ (by decide)) hlen]
    congr 2
    unfold base
    omega

theorem bit_put (m : Mem) (a : Nat) (v : CPU_WORD) (x : Nat) :
    (m.put a v).bit x = if x / 32 = a then v.getMsbD (x % 32) else m.bit x := by
  unfold bit
  by_cases hx : x / 32 = a
  · rw [if_pos hx, hx, put_same]
  · rw [if_neg hx, put_of_ne _ _ hx]

theorem bit_setMasked (m : Mem) (a : Nat) {mask val : CPU_WORD}
    (hval : ∀ i, mask.getMsbD i = false → val.getMsbD i = false) (x : Nat) :
    (setMasked m a mask val).bit x =
      if x / 32 = a ∧ mask.getMsbD (x % 32) = true then val.getMsbD (x % 32) else m.bit x := by
  have hx : x % 32 < 32 := Nat.mod_lt x (by decide)
  unfold setMasked
  rw [bit_put, bit_put, put_same]
  by_cases ha : x / 32 = a
  · have hbit : m.bit x = (m a).getMsbD (x % 32) := by
      unfold bit
      rw [ha]
    rw [if_pos ha, BitVec.getMsbD_or, BitVec.getMsbD_and, BitVec.getMsbD_not, decide_eq_true hx,
      Bool.true_and, hbit]
    by_cases hmask : mask.getMsbD (x % 32) = true
    · rw [if_pos ⟨ha, hmask⟩, hmask]
      simp
    · rw [if_neg fun hboth => hmask hboth.2, hval _ (Bool.eq_false_iff.mpr hmask),
        Bool.eq_false_iff.mpr hmask]
      simp
  · rw [if_neg ha, if_neg ha, if_neg fun hboth => ha hboth.1]

theorem writes_first (m : Mem) (hrel : relPos < 32) (hlen : len ≤ 32) (val : CPU_WORD) :
    Writes m (setMasked m a ((CPU_WORD_MASK <<< (32 - len)) >>> relPos)
        ((val &&& (CPU_WORD_MASK <<< (32 - len))) >>> relPos))
      (32 * a + relPos) (32 * a + min 32 (relPos + len))
      fun x => val.getMsbD (x - (32 * a + relPos)) := by
  intro x
  have hx : x % 32 < 32 := Nat.mod_lt x (by decide)
  rw [bit_setMasked]
  · simp only [BitVec.getMsbD_ushiftRight, BitVec.getMsbD_and, getMsbD_mask hlen,
      Bool.and_eq_true, decide_eq_true_eq, Bool.not_eq_true', decide_eq_false_iff_not]
    by_cases hin : 32 * a + relPos ≤ x ∧ x < 32 * a + min 32 (relPos + len)
    · rw [if_pos hin, if_pos (by omega), decide_eq_true hx, decide_eq_false (by omega),
        decide_eq_true (show x % 32 - relPos < len by omega),
        show x % 32 - relPos = x - (32 * a + relPos) by omega]
      simp
    · rw [if_neg hin, if_neg (by omega)]
  · intro i hi
    rw [BitVec.getMsbD_ushiftRight] at hi ⊢
    rw [BitVec.getMsbD_and]
    grind

theorem writes_next (m : Mem) (hrel : relPos < 32) (hlen : len ≤ 32) (hcross : 32 < relPos + len)
    (val : CPU_WORD) :
    Writes m (setMasked m (a + 1) ((CPU_WORD_MASK <<< (32 - len)) <<< (32 - relPos))
        ((val &&& (CPU_WORD_MASK <<< (32 - len))) <<< (32 - relPos)))
      (32 * a + 32) (32 * a + relPos + len) fun x => val.getMsbD (x - (32 * a + relPos)) := by
  intro x
  rw [bit_setMasked]
  · simp only [BitVec.getMsbD_shiftLeft, BitVec.getMsbD_and, getMsbD_mask hlen,
      decide_eq_true_eq]
    by_cases hin : 32 * a + 32 ≤ x ∧ x < 32 * a + relPos + len
    · rw [if_pos hin, if_pos (by omega), decide_eq_true (show x % 32 + (32 - relPos) < len by omega),
        show x % 32 + (32 - relPos) = x - (32 * a + relPos) by omega, Bool.and_true]
    · rw [if_neg hin, if_neg (by omega)]
  · intro i hi
    rw [BitVec.getMsbD_shiftLeft] at hi ⊢
    rw [BitVec.getMsbD_and, hi, Bool.and_false]

theorem writes_writeField (m : Mem) (hrel : relPos < 32) (hlen : len ≤ 32) (val : CPU_WORD) :
    Writes m (writeField m a relPos len val) (32 * a + relPos) (32 * a + relPos + len)
      fun x => val.getMsbD (x - (32 * a + relPos)) := by
  have hfirst := writes_first m (a := a) hrel hlen val
  unfold writeField
  dsimp only
  by_cases hcross : 32 < relPos + len
  · rw [if_pos hcross]
    rw [Nat.min_eq_left (by omega)] at hfirst
    exact hfirst.append (writes_next _ hrel hlen hcross val) (by omega) (by omega)
  · rw [if_neg hcross]
    rw [Nat.min_eq_right (by omega), ← Nat.add_assoc] at hfirst
    exact hfirst

theorem setField_spec (m : Mem) (h : Valid bs) (hpos : 0 < len) (hlen : len ≤ 32)
    (hin : pos + len ≤ bs.bitLen) (val : CPU_WORD) :
    ∃ m', setField m bs pos len val = some m' ∧
      Writes m m' (bs.base + pos) (bs.base + (pos + len))
        fun x => val.getMsbD (x - (bs.base + pos)) := by
  have hlt := h.lt
  have hsum : (pos + len) % 2 ^ 32 ≤ bs.bitLen := by omega
  have hbase : bs.base + pos =
      32 * (bs.bufAddr + (pos + bs.offset) / 32) + (pos + bs.offset) % 32 := by
    unfold base
    omega
  refine ⟨writeField m (bs.bufAddr + (pos + bs.offset) / 32) ((pos + bs.offset) % 32) len val, ?_,
    ?_⟩
  · unfold setField
    simp only [Option.bind_eq_bind]
    rw [assert_bind h.nonnull, assert_bind hpos, assert_bind hlen, assert_bind hsum,
      getRelativePosition_eq h (by omega)]
    rfl
  · rw [← Nat.add_assoc, hbase]
    exact writes_writeField m (Nat.mod_lt _ (by decide)) hlen val

theorem isBitSet_spec (m : Mem) (h : Valid bs) (hpos : pos < bs.bitLen) :
    isBitSet m bs pos = some (m.bit (bs.base + pos)) := by
  obtain ⟨val, hval, hbits⟩ := getField_spec m h Nat.one_pos (by decide) hpos
  have hzero : val = 0#32 ↔ m.bit (bs.base + pos) = false := by
    constructor
    · rintro rfl
      have hbit := hbits 0
      rw [BitVec.getMsbD_zero, decide_eq_true Nat.one_pos, Bool.true_and] at hbit
      exact hbit.symm
    · intro hbit
      refine BitVec.eq_of_getMsbD_eq fun i _ => ?_
      rw [hbits, BitVec.getMsbD_zero]
      by_cases hi : i < 1
      · rw [Nat.lt_one_iff.mp hi, Nat.add_zero, hbit, Bool.and_false]
      · rw [decide_eq_false hi, Bool.false_and]
  unfold isBitSet
  rw [hval]
  refine congrArg some ?_
  cases hbit : m.bit (bs.base + pos) with
  | false => exact decide_eq_false (not_not.mpr (hzero.mpr hbit))
  | true => exact decide_eq_true fun heq => by simp [hzero.mp heq] at hbit

theorem setOne_spec (m : Mem) (h : Valid bs) (hpos : pos < bs.bitLen) (val : CPU_WORD) :
    ∃ m', setFieldJustify m bs pos 1 val = some m' ∧
      Writes m m' (bs.base + pos) (bs.base + (pos + 1)) fun _ => val.getMsbD 31 := by
  obtain ⟨m', hm', hwrites⟩ := setField_spec m h Nat.one_pos (by decide) hpos (val <<< (32 - 1))
  refine ⟨m', hm', hwrites.congr fun x hlo hhi => ?_⟩
  rw [BitVec.getMsbD_shiftLeft, show x - (bs.base + pos) = 0 by omega]

theorem setBit_spec (m : Mem) (h : Valid bs) (hpos : pos < bs.bitLen) :
    ∃ m', setBit m bs pos = some m' ∧
      Writes m m' (bs.base + pos) (bs.base + (pos + 1)) fun _ => true :=
  setOne_spec m h hpos 1#32

theorem clearBit_spec (m : Mem) (h : Valid bs) (hpos : pos < bs.bitLen) :
    ∃ m', clearBit m bs pos = some m' ∧
      Writes m m' (bs.base + pos) (bs.base + (pos + 1)) fun _ => false :=
  setOne_spec m h hpos 0#32

/-! ## Loops -/

theorem forChunks_run {step endPos start : Nat} (Inv : Nat → Mem → Prop) (hstep : 0 < step)
    (hbound : endPos + step ≤ 2 ^ 32) (hbody : ∀ pos m, start ≤ pos → step ∣ pos - start → pos <
      endPos → Inv pos m → ∃ m', body pos (min step (endPos - pos)) m = some m' ∧ Inv (pos + step)
      m') {fuel pos : Nat} {m : Mem} (hpos : start ≤ pos) (hdvd : step ∣ pos - start)
    (hfuel : endPos - pos < fuel) (hm : Inv pos m) :
    ∃ m' pos', forChunks body step endPos fuel pos m = some m' ∧ endPos ≤ pos' ∧ Inv pos' m' := by
  induction fuel generalizing pos m with
  | zero => exact absurd hfuel (Nat.not_lt_zero _)
  | succ fuel ih =>
    rw [forChunks]
    by_cases hlt : pos < endPos
    · obtain ⟨m', hm', hinv⟩ := hbody pos m hpos hdvd hlt hm
      have hdvd' : step ∣ pos + step - start := by
        rw [Nat.sub_add_comm hpos]
        exact Nat.dvd_add hdvd (Nat.dvd_refl step)
      have hmod : (pos + step) % 2 ^ 32 = pos + step := Nat.mod_eq_of_lt (by omega)
      rw [if_pos hlt, hm', Option.bind_some, hmod]
      exact ih (by omega) hdvd' (by omega) hinv
    · rw [if_neg hlt]
      exact ⟨m, pos, rfl, Nat.le_of_not_lt hlt, hm⟩

/-- A loop forward writes what its fields say.  The bits of `v` may be read from the memory
`m0` at the start, if a turn finds them where no turn before it has written. -/
theorem forChunks_spec {step endPos start : Nat} {v : Nat → Bool} {m0 : Mem} (hstep : 0 < step)
    (hbound : endPos + step ≤ 2 ^ 32) (hbody : ∀ pos m, start ≤ pos → step ∣ pos - start → pos <
      endPos → Writes m0 m (a + start) (a + pos) v → ∃ m', body pos (min step (endPos - pos)) m =
      some m' ∧ Writes m m' (a + pos) (a + (pos + min step (endPos - pos))) v)
    (hle : start ≤ endPos) :
    ∃ m', forChunks body step endPos (endPos - start + 1) start m0 = some m' ∧
      Writes m0 m' (a + start) (a + endPos) v := by
  have hturn : ∀ pos m, start ≤ pos → step ∣ pos - start → pos < endPos →
      Writes m0 m (a + start) (a + min pos endPos) v →
      ∃ m', body pos (min step (endPos - pos)) m = some m' ∧
        Writes m0 m' (a + start) (a + min (pos + step) endPos) v := by
    intro pos m hpos hdvd hlt hm
    rw [Nat.min_eq_left hlt.le] at hm
    obtain ⟨m', hm', hwrites⟩ := hbody pos m hpos hdvd hlt hm
    have hnext : pos + min step (endPos - pos) = min (pos + step) endPos := by omega
    rw [hnext] at hwrites
    exact ⟨m', hm', hm.append hwrites (by omega) (by omega)⟩
  have hstart : Writes m0 m0 (a + start) (a + min start endPos) v := by
    rw [Nat.min_eq_left hle]
    exact Writes.nil _ _ _
  obtain ⟨m', pos, hm', hpos, hwrites⟩ := forChunks_run _ hstep hbound hturn (Nat.le_refl start)
    (by simp) (Nat.lt_succ_self _) hstart
  rw [Nat.min_eq_right hpos] at hwrites
  exact ⟨m', hm', hwrites⟩

theorem backChunks_spec {actLen : Nat} {v : Nat → Bool} {m0 : Mem} (hbody : ∀ pos m, pos < actLen →
      Writes m0 m (a + (pos + min (actLen - pos) 32)) (a + actLen) v → ∃ m', body pos (min (actLen -
      pos) 32) m = some m' ∧ Writes m m' (a + pos) (a + (pos + min (actLen - pos) 32)) v)
    {fuel n : Nat} {m : Mem} (hn : 32 * n < actLen + 32) (hfuel : n < fuel)
    (hm : Writes m0 m (a + min (32 * n) actLen) (a + actLen) v) :
    ∃ m', backChunks body actLen fuel (32 * (n : Int) - 32) m = some m' ∧
      Writes m0 m' a (a + actLen) v := by
  induction n generalizing fuel m with
  | zero =>
    obtain ⟨fuel, rfl⟩ := Nat.exists_eq_succ_of_ne_zero (Nat.ne_zero_of_lt hfuel)
    rw [backChunks, if_neg (by omega)]
    rw [Nat.mul_zero, Nat.zero_min, Nat.add_zero] at hm
    exact ⟨m, rfl, hm⟩
  | succ n ih =>
    obtain ⟨fuel, rfl⟩ := Nat.exists_eq_succ_of_ne_zero (Nat.ne_zero_of_lt hfuel)
    have hpos : (32 * ((n + 1 : Nat) : Int) - 32).toNat = 32 * n := by omega
    have hend : min (32 * (n + 1)) actLen = 32 * n + min (actLen - 32 * n) 32 := by omega
    rw [hend] at hm
    obtain ⟨m', hm', hwrites⟩ := hbody (32 * n) m (by omega) hm
    have hnext : 32 * ((n + 1 : Nat) : Int) - 32 - 32 = 32 * (n : Int) - 32 := by omega
    rw [backChunks, if_pos (by omega), hpos, hm', Option.bind_some, hnext]
    refine ih (by omega) (Nat.lt_of_succ_lt_succ hfuel) ?_
    rw [Nat.min_eq_left (by omega)]
    exact hm.prepend hwrites (by omega) (by omega)

/-! ## `setPattern` -/

theorem setPattern_spec (m : Mem) (h : Valid bs) {sLen pLen : Nat} (hsLen : 0 < sLen)
    (hin : sPos + sLen ≤ bs.bitLen) (hpLen : 0 < pLen) (hword : pLen ≤ 32) (pattern : CPU_WORD) :
    ∃ m', setPattern m bs sPos sLen pattern pLen = some m' ∧
      Writes m m' (bs.base + sPos) (bs.base + (sPos + sLen))
        fun x => pattern.getMsbD (32 - pLen + (x - (bs.base + sPos)) % pLen) := by
  have hlt := h.lt
  have hmod : (sPos + sLen) % 2 ^ 32 = sPos + sLen := Nat.mod_eq_of_lt (by omega)
  have hbso : Valid ⟨pLen, 1, 32 - pLen⟩ := by
    refine ⟨Nat.one_ne_zero, ?_⟩
    have hsum : pLen + (32 - pLen) = 32 := by omega
    show pLen + (32 - pLen) ≤ _
    unfold getNumCpuWords
    rw [hsum]
    decide
  unfold setPattern
  simp only [Option.bind_eq_bind]
  rw [assert_bind h.nonnull, assert_bind hsLen, assert_bind (hmod.symm ▸ hin), assert_bind hpLen,
    assert_bind hword, hmod]
  have hturns : sLen + 1 = sPos + sLen - sPos + 1 := by omega
  rw [hturns]
  refine forChunks_spec hpLen (by omega) (fun pos m hle hdvd hpos _ => ?_) (Nat.le_add_right _ _)
  obtain ⟨k, hk⟩ := hdvd
  obtain ⟨val, hval, hbits⟩ := getField_spec (fun _ => pattern) hbso
    (show 0 < min pLen (sPos + sLen - pos) by omega) (by omega)
    (show 0 + min pLen (sPos + sLen - pos) ≤ pLen by omega)
  obtain ⟨m', hm', hwrites⟩ := setField_spec m h
    (show 0 < min pLen (sPos + sLen - pos) by omega) (by omega)
    (show pos + min pLen (sPos + sLen - pos) ≤ bs.bitLen by omega) val
  refine ⟨m', ?_, hwrites.congr fun x hlo hhi => ?_⟩
  · rw [hval]
    exact hm'
  · have hmod : (x - (bs.base + sPos)) % pLen = x - (bs.base + pos) := by
      have hsplit : x - (bs.base + sPos) = x - (bs.base + pos) + pLen * k := by omega
      rw [hsplit, Nat.add_mul_mod_self_left, Nat.mod_eq_of_lt (by omega)]
    have hbit := bit_word (fun _ : Nat => pattern) 1
      (show 32 - pLen + (x - (bs.base + pos)) < 32 by omega)
    rw [hbits, decide_eq_true (by omega), Bool.true_and, hmod, ← hbit]
    congr 1
    unfold base
    dsimp only
    omega

/-! ## `setString` -/

/-- The `n` bits from `d` on become what the `n` bits from `s` on were, at once. -/
def Copied (m m' : Mem) (s d n : Nat) : Prop := Writes m m' d (d + n) fun x => m.bit (s + (x - d))

theorem copyChunk_spec (m : Mem) (hs : Valid sStr) (h : Valid bs) (hlen : 0 < len) (h32 : len ≤ 32)
    (hsin : sPos + (pos + len) ≤ sStr.bitLen) (hdin : dPos + (pos + len) ≤ bs.bitLen) :
    ∃ m', copyChunk sStr bs sPos dPos pos len m = some m' ∧
      Writes m m' (bs.base + dPos + pos) (bs.base + dPos + (pos + len))
        fun x => m.bit (sStr.base + sPos + (x - (bs.base + dPos))) := by
  have hslt := hs.lt
  have hlt := h.lt
  have hsmod : (sPos + pos) % 2 ^ 32 = sPos + pos := Nat.mod_eq_of_lt (by omega)
  have hdmod : (dPos + pos) % 2 ^ 32 = dPos + pos := Nat.mod_eq_of_lt (by omega)
  obtain ⟨val, hval, hbits⟩ := getField_spec m hs hlen h32
    (show sPos + pos + len ≤ sStr.bitLen by omega)
  obtain ⟨m', hm', hwrites⟩ := setField_spec m h hlen h32
    (show dPos + pos + len ≤ bs.bitLen by omega) val
  refine ⟨m', ?_, ?_⟩
  · unfold copyChunk
    rw [hsmod, hdmod, hval]
    exact hm'
  · rw [Nat.add_assoc dPos, ← Nat.add_assoc, ← Nat.add_assoc] at hwrites
    refine hwrites.congr fun x hlo hhi => ?_
    rw [hbits, decide_eq_true (by omega), Bool.true_and]
    congr 1
    omega

/-- The number of bits that `setString` copies. -/
def actLen (bs : BitString) (sLen dPos : Nat) : Nat := min sLen (bs.bitLen - dPos)

/-- The copy starts with its last field, and its position there does not fit into 31 bits. -/
def LostBackward (bs sStr : BitString) (sPos sLen dPos : Nat) : Prop :=
  sStr.base + sPos < bs.base + dPos ∧ 2 ^ 31 < bs.actLen sLen dPos

section

variable {sLen : Nat} (hs : Valid sStr) (h : Valid bs) (hsLen : 0 < sLen)
  (hin : sPos + sLen ≤ sStr.bitLen) (hdPos : dPos < bs.bitLen)

include hs h hsLen hin hdPos

theorem setString_eq (m : Mem) : setString m bs sStr sPos sLen dPos =
    if bs.base + dPos = sStr.base + sPos then some m
    else if bs.base + dPos < sStr.base + sPos then
      forChunks (copyChunk sStr bs sPos dPos) 32 (bs.actLen sLen dPos) (bs.actLen sLen dPos + 1) 0 m
    else
      backChunks (copyChunk sStr bs sPos dPos) (bs.actLen sLen dPos) (bs.actLen sLen dPos + 1)
        (toInt32 ((bs.actLen sLen dPos - 1) / 32 * 32)) m := by
  have hslt := hs.lt
  have hmod : (sPos + sLen) % 2 ^ 32 ≤ sStr.bitLen := by omega
  have heq : (bs.bufAddr + (dPos + bs.offset) / 32 = sStr.bufAddr + (sPos + sStr.offset) / 32 ∧
      (dPos + bs.offset) % 32 = (sPos + sStr.offset) % 32) ↔
        bs.base + dPos = sStr.base + sPos := by
    unfold base
    omega
  have hlt : (bs.bufAddr + (dPos + bs.offset) / 32 < sStr.bufAddr + (sPos + sStr.offset) / 32 ∨
      (bs.bufAddr + (dPos + bs.offset) / 32 = sStr.bufAddr + (sPos + sStr.offset) / 32 ∧
        (dPos + bs.offset) % 32 < (sPos + sStr.offset) % 32)) ↔
          bs.base + dPos < sStr.base + sPos := by
    unfold base
    omega
  unfold setString
  simp only [Option.bind_eq_bind]
  rw [assert_bind hs.nonnull, assert_bind hsLen, assert_bind hmod, assert_bind h.nonnull,
    assert_bind hdPos, getRelativePosition_eq hs (by omega), Option.bind_some,
    getRelativePosition_eq h hdPos, Option.bind_some]
  simp only [heq, hlt]
  rfl

theorem setString_copies (hback : ¬ LostBackward bs sStr sPos sLen dPos) (m : Mem) :
    ∃ m', setString m bs sStr sPos sLen dPos = some m' ∧
      Copied m m' (sStr.base + sPos) (bs.base + dPos) (bs.actLen sLen dPos) := by
  have hslt := hs.lt
  have hlt := h.lt
  have hpos : 0 < bs.actLen sLen dPos := by
    unfold actLen
    omega
  have hsfit : sPos + bs.actLen sLen dPos ≤ sStr.bitLen := by
    unfold actLen
    omega
  have hdfit : dPos + bs.actLen sLen dPos ≤ bs.bitLen := by
    unfold actLen
    omega
  rw [setString_eq hs h hsLen hin hdPos]
  generalize hn : bs.actLen sLen dPos = n at hpos hsfit hdfit ⊢
  by_cases heq : bs.base + dPos = sStr.base + sPos
  · rw [if_pos heq]
    refine ⟨m, rfl, Writes.of_eq fun x hlo _ => ?_⟩
    rw [← heq, Nat.add_sub_cancel' hlo]
  · rw [if_neg heq]
    by_cases hfwd : bs.base + dPos < sStr.base + sPos
    · -- forward: what is read lies behind what has been written
      rw [if_pos hfwd]
      refine forChunks_spec (a := bs.base + dPos) (by decide) (by omega)
        (fun pos m' _ _ hpos' hm' => ?_) (Nat.zero_le n)
      obtain ⟨m'', hm'', hwrites⟩ := copyChunk_spec m' hs h
          (show 0 < min 32 (n - pos) by omega) (by omega)
          (show sPos + (pos + min 32 (n - pos)) ≤ sStr.bitLen by omega)
          (show dPos + (pos + min 32 (n - pos)) ≤ bs.bitLen by omega)
      refine ⟨m'', hm'', hwrites.congr fun x hlo hhi => ?_⟩
      exact (hm'.bit_of_le (by omega)).symm
    · -- backward: what is read lies in front of it
      have hshort : n ≤ 2 ^ 31 := Nat.le_of_not_lt fun hlong => hback ⟨by omega, hn ▸ hlong⟩
      have hlast : toInt32 ((n - 1) / 32 * 32) = 32 * (((n - 1) / 32 + 1 : Nat) : Int) - 32 := by
        unfold toInt32
        rw [if_pos (by omega)]
        omega
      rw [if_neg hfwd, hlast]
      refine backChunks_spec (fun pos m' hpos' hm' => ?_) (by omega) (by omega) ?_
      · obtain ⟨m'', hm'', hwrites⟩ := copyChunk_spec m' hs h
          (show 0 < min (n - pos) 32 by omega) (by omega)
          (show sPos + (pos + min (n - pos) 32) ≤ sStr.bitLen by omega)
          (show dPos + (pos + min (n - pos) 32) ≤ bs.bitLen by omega)
        refine ⟨m'', hm'', hwrites.congr fun x hlo hhi => ?_⟩
        exact (hm'.bit_of_lt (by omega)).symm
      · rw [Nat.min_eq_right (by omega)]
        exact Writes.nil _ _ _

theorem setString_lost (hback : LostBackward bs sStr sPos sLen dPos) (m : Mem) :
    setString m bs sStr sPos sLen dPos = some m := by
  obtain ⟨habove, hlong⟩ := hback
  have hlt := h.lt
  have hfit : bs.actLen sLen dPos < 2 ^ 32 := by
    unfold actLen
    omega
  rw [setString_eq hs h hsLen hin hdPos, if_neg (by omega), if_neg (by omega), backChunks,
    if_neg]
  unfold toInt32
  rw [if_neg (by omega)]
  omega

end

/-! ## `maskString` -/

/-- The bits of the mask are cleared, at once. -/
def Masked (bs mask : BitString) (m m' : Mem) : Prop :=
  Writes m m' bs.base (bs.base + min bs.bitLen mask.bitLen)
    fun x => m.bit x && !m.bit (mask.base + (x - bs.base))

/-- No bit of the mask that is still to be read lies where a turn has written. -/
def MaskAhead (bs mask : BitString) : Prop :=
  bs.base ≤ mask.base ∨ min bs.bitLen mask.bitLen ≤ 32 ∨
    mask.base + min bs.bitLen mask.bitLen ≤ bs.base

theorem maskChunk_spec (m : Mem) (h : Valid bs) (hmask : Valid mask) (hlen : 0 < len)
    (h32 : len ≤ 32) (hin : pos + len ≤ bs.bitLen) (hmin : pos + len ≤ mask.bitLen) :
    ∃ m', maskChunk bs mask pos len m = some m' ∧
      Writes m m' (bs.base + pos) (bs.base + (pos + len))
        fun x => m.bit x && !m.bit (mask.base + (x - bs.base)) := by
  obtain ⟨dVal, hdVal, hd⟩ := getField_spec m h hlen h32 hin
  obtain ⟨sVal, hsVal, hs⟩ := getField_spec m hmask hlen h32 hmin
  obtain ⟨m', hm', hwrites⟩ := setField_spec m h hlen h32 hin (dVal &&& ~~~sVal)
  refine ⟨m', ?_, hwrites.congr fun x hlo hhi => ?_⟩
  · unfold maskChunk
    rw [hdVal, hsVal]
    exact hm'
  · have hx : x - (bs.base + pos) < len := by omega
    rw [BitVec.getMsbD_and, BitVec.getMsbD_not, hd, hs, decide_eq_true hx,
      decide_eq_true (show x - (bs.base + pos) < 32 by omega), Bool.true_and, Bool.true_and,
      Bool.true_and, Nat.add_sub_cancel' hlo, Nat.add_assoc mask.base,
      show pos + (x - (bs.base + pos)) = x - bs.base by omega]

theorem maskString_masks (h : Valid bs) (hmask : Valid mask) (hahead : MaskAhead bs mask)
    (m : Mem) : ∃ m', maskString m bs mask = some m' ∧ Masked bs mask m m' := by
  have hlt := h.lt
  unfold maskString Masked MaskAhead at *
  dsimp only
  generalize hn : min bs.bitLen mask.bitLen = n at *
  refine forChunks_spec (a := bs.base) (by decide) (by omega) (fun pos m' _ hdvd hpos hm' => ?_)
    (Nat.zero_le n)
  obtain ⟨k, hk⟩ := hdvd
  obtain ⟨m'', hm'', hwrites⟩ := maskChunk_spec m' h hmask (show 0 < min 32 (n - pos) by omega)
    (by omega) (show pos + min 32 (n - pos) ≤ bs.bitLen by omega) (by omega)
  refine ⟨m'', hm'', hwrites.congr fun x hlo hhi => ?_⟩
  have hmaskbit : m'.bit (mask.base + (x - bs.base)) = m.bit (mask.base + (x - bs.base)) := by
    by_cases hfront : mask.base + (x - bs.base) < bs.base
    · exact hm'.bit_of_lt hfront
    · exact hm'.bit_of_le (by omega)
  rw [hmaskbit, hm'.bit_of_le hlo]

/-- The memory of ones, and from the second turn on one in which the first word of the string
is cleared and a bit `i` behind it is not. -/
def FirstCleared (bs : BitString) (i pos : Nat) (m : Mem) : Prop :=
  if pos = 0 then m = fun _ => CPU_WORD_MASK
  else (∀ j < 32, m.bit (bs.base + j) = false) ∧ m.bit (bs.base + i) = true

theorem bit_ones (x : Nat) : bit (fun _ => CPU_WORD_MASK) x = true := by
  unfold bit CPU_WORD_MASK
  rw [BitVec.getMsbD_allOnes, decide_eq_true (Nat.mod_lt x (by decide))]

/-- Where the mask starts in front of the string and reaches into it, a memory of ones shows
the error: the first word is cleared, and so the mask bits that lie in it are lost. -/
theorem maskString_ones (h : Valid bs) (hmask : Valid mask) (hbehind : ¬ MaskAhead bs mask) :
    ∃ m', maskString (fun _ => CPU_WORD_MASK) bs mask = some m' ∧
      m'.bit (bs.base + max 32 (bs.base - mask.base)) = true := by
  have hlt := h.lt
  unfold maskString MaskAhead at *
  dsimp only
  generalize hn : min bs.bitLen mask.bitLen = n at *
  generalize hi : max 32 (bs.base - mask.base) = i
  have hbound : n + 32 ≤ 2 ^ 32 := by omega
  have hturn : ∀ pos m, 0 ≤ pos → 32 ∣ pos - 0 → pos < n → FirstCleared bs i pos m →
      ∃ m', maskChunk bs mask pos (min 32 (n - pos)) m = some m' ∧
        FirstCleared bs i (pos + 32) m' := by
    intro pos m _ hdvd hpos hm
    obtain ⟨m', hm', hwrites⟩ := maskChunk_spec m h hmask (show 0 < min 32 (n - pos) by omega)
      (by omega) (show pos + min 32 (n - pos) ≤ bs.bitLen by omega) (by omega)
    refine ⟨m', hm', ?_⟩
    unfold FirstCleared at hm ⊢
    rw [if_neg (by omega)]
    by_cases hzero : pos = 0
    · rw [if_pos hzero] at hm
      subst hzero hm
      refine ⟨fun j hj => ?_, ?_⟩
      · rw [hwrites.bit_of_mem (by omega) (by omega), bit_ones, bit_ones]
        rfl
      · rw [hwrites.bit_of_le (by omega), bit_ones]
    · rw [if_neg hzero] at hm
      obtain ⟨hcleared, hset⟩ := hm
      refine ⟨fun j hj => ?_, ?_⟩
      · rw [hwrites.bit_of_lt (by omega), hcleared j hj]
      · -- the mask bit lies in the first word
        have hlost : m.bit (mask.base + (bs.base + i - bs.base)) = false := by
          have hback := hcleared (mask.base + i - bs.base) (by omega)
          rwa [show bs.base + (mask.base + i - bs.base) =
            mask.base + (bs.base + i - bs.base) by omega] at hback
        rw [hwrites (bs.base + i)]
        dsimp only
        rw [hlost, hset]
        simp
  have hstart : FirstCleared bs i 0 fun _ => CPU_WORD_MASK := by
    unfold FirstCleared
    rw [if_pos rfl]
  obtain ⟨m', pos, hm', hpos, hinv⟩ := forChunks_run (FirstCleared bs i) (by decide) hbound hturn
    (Nat.zero_le 0) (by simp) (show n - 0 < n + 1 by omega) hstart
  unfold FirstCleared at hinv
  rw [if_neg (by omega)] at hinv
  exact ⟨m', hm', hinv.2⟩

/-- `maskString` clears the bits of the mask exactly when no turn writes over them before they
are read. -/
theorem maskString_iff (h : Valid bs) (hmask : Valid mask) :
    (∀ m, ∃ m', maskString m bs mask = some m' ∧ Masked bs mask m m') ↔ MaskAhead bs mask := by
  constructor
  · intro hall
    by_contra hbehind
    obtain ⟨m', hm', hbit⟩ := maskString_ones h hmask hbehind
    obtain ⟨m'', hm'', hmasked⟩ := hall fun _ => CPU_WORD_MASK
    obtain rfl := Option.some.inj (hm'.symm.trans hm'')
    unfold MaskAhead at hbehind
    rw [hmasked.bit_of_mem (by omega) (by omega), bit_ones, bit_ones] at hbit
    exact absurd hbit (by decide)
  · exact maskString_masks h hmask

end BitString

end Hostboot.Prdf.InMemory
