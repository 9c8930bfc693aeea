import Hostboot.Prdf.BitOperators
import Mathlib.Data.Finset.Sort
import Mathlib.Order.Nat

/-!
# Keys of bit positions

The class `BitKey` of `prdfBitKey.C`: a set of bit positions, kept in two words of the object
while 64 bits are enough for it, and in a buffer from then on.  The capacity only grows.

The memory is the one of `Hostboot.Prdf.InMemory`.  An object is the word of its
`iv_storage1`, behind which `iv_rep.storage2` stands.  When the union holds a buffer its
word is not read any more, so the model leaves the pointer out of the memory.

An operation is described by what it makes of the set of the key (`members`) and by the words
it leaves alone.
-/

namespace Hostboot.Prdf.InMemory

open Hostboot.Lib Hostboot.Lib.WordMem

/-! ## The functions of the source -/

structure BitKey where
  capacity : Nat
  storage : Nat
  buffer : Nat
  deriving DecidableEq, Repr

def getWordSize (bitCount : Nat) : Nat := bitCount / 32 + if bitCount % 32 ≠ 0 then 1 else 0

namespace BitKey

def REPRESENTATION_BIT_POSTION_COUNT : Nat := 64

def IsDirect (k : BitKey) : Prop := k.capacity ≤ REPRESENTATION_BIT_POSTION_COUNT

instance (k : BitKey) : Decidable k.IsDirect := Nat.decLe _ _

/-- `DataPtr` and `cDataPtr`. -/
def dataPtr (k : BitKey) : Nat := if k.IsDirect then k.storage else k.buffer

/-- The bit string of a key. -/
def string (k : BitKey) : BitString := ⟨k.capacity, k.dataPtr, 0⟩

/-- `BitKey()`, in an object at `storage`. -/
def new (m : Mem) (storage : Nat) : Mem × BitKey :=
  ((m.put storage 0#32).put (storage + 1) 0#32, ⟨0, storage, 0⟩)

/-- In `ReAllocate`: the bits go to a new buffer of the words from `addr` on. -/
def toBuffer (m : Mem) (k : BitKey) (capacity addr : Nat) : Option Mem := do
  let dbs : BitString := ⟨capacity, addr, 0⟩
  let m ← dbs.clearAll m
  let sbs := k.string
  let zero ← sbs.isZero m
  let m ← if !zero then dbs.setWhole m sbs else some m
  some (m.put k.storage 0#32)

/-- `ReAllocate`, where `new` gives the words from `addr` on. -/
def reAllocate (m : Mem) (k : BitKey) (len addr : Nat) : Option (Mem × BitKey) :=
  if len > k.capacity then
    let wordsize := getWordSize len
    let k' := { k with capacity := 32 * wordsize % 2 ^ 32 }
    if ¬ k'.IsDirect then
      (toBuffer m k k'.capacity addr).map fun m => (m, { k' with buffer := addr })
    else some (m, k')
  else some (m, k)

def setBit (m : Mem) (k : BitKey) (i_bitValue addr : Nat) : Option (Mem × BitKey) := do
  let (m, k) ← if i_bitValue ≥ k.capacity then reAllocate m k ((i_bitValue + 1) % 2 ^ 32) addr
    else some (m, k)
  let m ← k.string.setBit m i_bitValue
  some (m, k)

/-- `iv_storage1` of one object into another. -/
def copyStorage1 (m : Mem) (dst src : Nat) : Mem := m.put dst (m src)

/-- `iv_rep.storage2` of one object into another. -/
def copyStorage2 (m : Mem) (dst src : Nat) : Mem := m.put (dst + 1) (m (src + 1))

/-- The copy constructor, into an object at `storage`. -/
def copy (m : Mem) (bit_list : BitKey) (storage addr : Nat) : Mem × BitKey :=
  let k : BitKey := { bit_list with storage := storage }
  let m := copyStorage1 m storage bit_list.storage
  if k.IsDirect then (copyStorage2 m storage bit_list.storage, k)
  else (m.memcpy addr bit_list.buffer (getWordSize k.capacity), { k with buffer := addr })

/-- In `operator=`: the old bits are cleared, if there is room for any. -/
def clear (m : Mem) (k : BitKey) : Option Mem :=
  if k.capacity ≠ 0 then k.string.clearAll m else some m

/-- `operator=`. -/
def assign (m : Mem) (k bit_list : BitKey) (addr : Nat) : Option (Mem × BitKey) := do
  let m ← k.clear m
  let (m, k) ← reAllocate m k bit_list.capacity addr
  if k.IsDirect then
    let m := copyStorage1 m k.storage bit_list.storage
    some (copyStorage2 m k.storage bit_list.storage, k)
  else some (m.memcpy k.buffer bit_list.dataPtr (getWordSize bit_list.capacity), k)

/-- A loop over `n` words from the one at `i` on, while a test of each holds. -/
def allWords (test : Nat → Bool) : Nat → Nat → Bool
  | _, 0 => true
  | i, n + 1 => test i && allWords test (i + 1) n

/-- `operator==`. -/
def eq (m : Mem) (k that : BitKey) : Bool :=
  let mydata := k.dataPtr
  let yodata := that.dataPtr
  let mysize := getWordSize k.capacity
  let yosize := getWordSize that.capacity
  let smsize := if yosize < mysize then yosize else mysize
  let result := allWords (fun i => m (mydata + i) == m (yodata + i)) 0 smsize
  if result && decide (yosize > mysize) then
    allWords (fun i => m (yodata + i) == 0#32) smsize (yosize - mysize)
  else if result && decide (mysize > yosize) then
    allWords (fun i => m (mydata + i) == 0#32) smsize (mysize - yosize)
  else result

/-- `isSubset`.  The key `zero` has no words. -/
def isSubset (m : Mem) (k that : BitKey) : Bool :=
  let mydata := k.dataPtr
  let yodata := that.dataPtr
  let mysize := getWordSize k.capacity
  let yosize := getWordSize that.capacity
  let smsize := if yosize < mysize then yosize else mysize
  let zero : BitKey := ⟨0, 0, 0⟩
  let result := if eq m that zero then eq m k that else true
  let result := result &&
    allWords (fun i => (m (mydata + i) &&& m (yodata + i)) == m (yodata + i)) 0 smsize
  if result && decide (yosize > mysize) then
    allWords (fun i => m (yodata + i) == 0#32) smsize (yosize - mysize)
  else result

/-- The loop of `getListValue` from the position `i` on, for the turns that are left. -/
def findValue (m : Mem) (bs : BitString) (n : Nat) : Nat → Nat → Nat → Option Nat
  | 0, _, _ => some 0xffffffff
  | turns + 1, i, setCount => do
    let set ← bs.isBitSet m i
    let setCount := if set then setCount + 1 else setCount
    if setCount = n then some i else findValue m bs n turns (i + 1) setCount

def getListValue (m : Mem) (k : BitKey) (n : Nat) : Option Nat :=
  findValue m k.string ((n + 1) % 2 ^ 32) k.capacity 0 0

/-- The loop of `getSetCount` from the position `i` on, for the turns that are left. -/
def countFrom (m : Mem) (bs : BitString) : Nat → Nat → Nat → Option Nat
  | 0, _, count => some count
  | turns + 1, i, count => do
    let set ← bs.isBitSet m i
    countFrom m bs turns (i + 1) (if set then count + 1 else count)

/-- `size`: the `getSetCount` of the whole string. -/
def size (m : Mem) (k : BitKey) : Option Nat := countFrom m k.string k.capacity 0 0

/-- `removeBit` of the one at a place. -/
def removeNth (m : Mem) (k : BitKey) (n : Nat) : Option Mem := do
  let size ← k.size m
  if n < size then
    let value ← k.getListValue m n
    k.string.clearBit m value
  else some m

/-- The loop of `removeBit`, with `i` positions to go. -/
def clearLast (m : Mem) (bs : BitString) : Nat → Option Mem
  | 0 => some m
  | i + 1 => do
    let set ← bs.isBitSet m i
    if set then bs.clearBit m i else clearLast m bs i

/-- `removeBit` of the highest one. -/
def removeLast (m : Mem) (k : BitKey) : Option Mem := clearLast m k.string k.capacity

def removeBits (m : Mem) (k i_bk : BitKey) : Option Mem := k.string.maskString m i_bk.string

/-! ## One key -/

/-- The set of a key. -/
def members (m : Mem) (k : BitKey) : Finset Nat :=
  (Finset.range k.capacity).filter fun p => m.bit (32 * k.dataPtr + p) = true

/-- A key whose words are its own.  What an object holds behind the capacity is zero. -/
structure Ok (m : Mem) (k : BitKey) : Prop where
  aligned : 32 ∣ k.capacity
  small : k.capacity + 32 ≤ 2 ^ 32
  storage_ne : k.storage ≠ 0
  buffer_ne : ¬ k.IsDirect → k.buffer ≠ 0
  stale : k.IsDirect → ∀ p, k.capacity ≤ p → p < 64 → m.bit (32 * k.storage + p) = false

/-- The words of a key: those of the object and of its buffer. -/
def Owns (k : BitKey) (a : Nat) : Prop :=
  (k.storage ≤ a ∧ a < k.storage + 2) ∨
    (¬ k.IsDirect ∧ k.buffer ≤ a ∧ a < k.buffer + k.capacity / 32)

variable {m m' : Mem} {k k' b : BitKey} {p a addr len lo hi : Nat} {v : Nat → Bool}

theorem mem_members : p ∈ members m k ↔ p < k.capacity ∧ m.bit (32 * k.dataPtr + p) = true := by
  rw [members, Finset.mem_filter, Finset.mem_range]

theorem dataPtr_of_direct (h : k.IsDirect) : k.dataPtr = k.storage := if_pos h

theorem dataPtr_of_not_direct (h : ¬ k.IsDirect) : k.dataPtr = k.buffer := if_neg h

theorem owns_data (hlo : k.dataPtr ≤ a) (hhi : a < k.dataPtr + k.capacity / 32) : k.Owns a := by
  by_cases hdirect : k.IsDirect
  · rw [dataPtr_of_direct hdirect] at hlo hhi
    have hcap : k.capacity ≤ 64 := hdirect
    exact Or.inl ⟨hlo, by omega⟩
  · rw [dataPtr_of_not_direct hdirect] at hlo hhi
    exact Or.inr ⟨hdirect, hlo, hhi⟩

namespace Ok

theorem valid (h : Ok m k) : k.string.Valid := by
  have hsmall := h.small
  have hptr : k.dataPtr ≠ 0 := by
    by_cases hdirect : k.IsDirect
    · rw [dataPtr_of_direct hdirect]
      exact h.storage_ne
    · rw [dataPtr_of_not_direct hdirect]
      exact h.buffer_ne hdirect
  exact BitString.valid_buffer (by omega) hptr

theorem div_mul (h : Ok m k) : 32 * (k.capacity / 32) = k.capacity := Nat.mul_div_cancel' h.aligned

theorem congr (h : Ok m k) (hsame : ∀ a, k.Owns a → m' a = m a) :
    Ok m' k ∧ members m' k = members m k := by
  have hdiv := h.div_mul
  have hbit : ∀ a i, i < 32 → k.Owns a → m'.bit (32 * a + i) = m.bit (32 * a + i) := by
    intro a i hi ha
    rw [bit_word m' a hi, bit_word m a hi, hsame a ha]
  have hsplit : ∀ x p, 32 * x + p = 32 * (x + p / 32) + p % 32 := by
    intro x p
    omega
  constructor
  · refine ⟨h.aligned, h.small, h.storage_ne, h.buffer_ne, fun hdirect p hcap hp => ?_⟩
    rw [hsplit, hbit _ _ (Nat.mod_lt p (by decide)) (Or.inl (by omega)), ← hsplit]
    exact h.stale hdirect p hcap hp
  · refine Finset.filter_congr fun p hp => ?_
    rw [Finset.mem_range] at hp
    rw [hsplit, hbit _ _ (Nat.mod_lt p (by decide)) (owns_data (by omega) (by omega)), ← hsplit]

theorem write (h : Ok m k) (hw : Writes m m' lo hi v) (hlo : 32 * k.dataPtr ≤ lo)
    (hhi : hi ≤ 32 * k.dataPtr + k.capacity) :
    Ok m' k ∧ ∀ a, ¬ k.Owns a → m' a = m a := by
  have hdiv := h.div_mul
  refine ⟨⟨h.aligned, h.small, h.storage_ne, h.buffer_ne, fun hdirect p hcap hp => ?_⟩,
    fun a ha => hw.word_eq ?_⟩
  · rw [dataPtr_of_direct hdirect] at hhi
    rw [hw.bit_of_le (by omega)]
    exact h.stale hdirect p hcap hp
  · have hout : ¬ (k.dataPtr ≤ a ∧ a < k.dataPtr + k.capacity / 32) :=
      fun hin => ha (owns_data hin.1 hin.2)
    omega

end Ok

theorem base_string (k : BitKey) : k.string.base = 32 * k.dataPtr := rfl

theorem members_one {b : Bool} (hp : p < k.capacity)
    (hw : Writes m m' (k.string.base + p) (k.string.base + (p + 1)) fun _ => b) :
    members m' k = if b then insert p (members m k) else (members m k).erase p := by
  ext x
  have hx := hw (32 * k.dataPtr + x)
  rw [base_string] at hx
  rw [mem_members]
  by_cases heq : x = p
  · subst heq
    rw [hx, if_pos (by omega)]
    cases b <;> simp [hp]
  · rw [hx, if_neg (by omega), ← mem_members]
    cases b <;> simp [heq]

theorem string_setBit_spec (h : Ok m k) (hp : p < k.capacity) :
    ∃ m', k.string.setBit m p = some m' ∧ Ok m' k ∧ members m' k = insert p (members m k) ∧
      ∀ a, ¬ k.Owns a → m' a = m a := by
  obtain ⟨m', hm', hw⟩ := BitString.setBit_spec m h.valid hp
  obtain ⟨hok, hframe⟩ := h.write hw (by rw [base_string]; omega) (by rw [base_string]; omega)
  exact ⟨m', hm', hok, members_one hp hw, hframe⟩

theorem string_clearBit_spec (h : Ok m k) (hp : p < k.capacity) :
    ∃ m', k.string.clearBit m p = some m' ∧ Ok m' k ∧ members m' k = (members m k).erase p ∧
      ∀ a, ¬ k.Owns a → m' a = m a := by
  obtain ⟨m', hm', hw⟩ := BitString.clearBit_spec m h.valid hp
  obtain ⟨hok, hframe⟩ := h.write hw (by rw [base_string]; omega) (by rw [base_string]; omega)
  exact ⟨m', hm', hok, members_one hp hw, hframe⟩

/-! ## Growth -/

/-- The `n` words that `new` gives, none of which the key has. -/
def Unowned (k : BitKey) (addr n : Nat) : Prop := ∀ a, addr ≤ a → a < addr + n → ¬ k.Owns a

/-- What a key becomes: its words are in order, it has the set, and no word changed that was
not and is not its own. -/
structure Becomes (m m' : Mem) (k k' : BitKey) (set : Finset Nat) : Prop where
  ok : Ok m' k'
  members_eq : members m' k' = set
  frame : ∀ a, ¬ k.Owns a → ¬ k'.Owns a → m' a = m a

/-- A key takes no words but those that `new` gives. -/
def Grows (k k' : BitKey) (addr n : Nat) : Prop :=
  k'.storage = k.storage ∧ ∀ a, k'.Owns a → k.Owns a ∨ (addr ≤ a ∧ a < addr + n)

/-- A longer key whose set is not empty is copied forward, or it is short enough. -/
def GrowthCopies (m : Mem) (k : BitKey) (addr : Nat) : Prop :=
  members m k = ∅ ∨ addr ≤ k.dataPtr ∨ k.capacity ≤ 2 ^ 31

theorem getWordSize_eq (n : Nat) : getWordSize n = (n + 31) / 32 := by
  unfold getWordSize
  by_cases hrest : n % 32 = 0
  · rw [if_neg (not_not.mpr hrest)]
    omega
  · rw [if_pos hrest]
    omega

theorem Grows.refl (k : BitKey) (addr n : Nat) : Grows k k addr n := ⟨rfl, fun _ ha => Or.inl ha⟩

theorem Unowned.data {n : Nat} (h : Ok m k) (hun : Unowned k addr n) :
    32 * addr + 32 * n ≤ 32 * k.dataPtr ∨ 32 * k.dataPtr + k.capacity ≤ 32 * addr ∨
      k.capacity = 0 ∨ n = 0 := by
  have hdiv := h.div_mul
  by_contra hnot
  -- the higher of the two starts is in both
  have hin : ¬ k.Owns (max addr k.dataPtr) := hun _ (Nat.le_max_left _ _) (by omega)
  exact hin (owns_data (Nat.le_max_right _ _) (by omega))

/-- Both representations are in the object, and what is behind the old capacity is zero. -/
theorem becomes_direct (h : Ok m k) {n : Nat} (hcap : k.capacity ≤ 32 * n) (hdirect : 32 * n ≤ 64) :
    Becomes m m k { k with capacity := 32 * n } (members m k) := by
  have hold : k.IsDirect := hcap.trans hdirect
  have hnew : IsDirect { k with capacity := 32 * n } := hdirect
  refine ⟨⟨⟨n, rfl⟩, ?_, h.storage_ne, fun hnot => absurd hnew hnot, fun _ p hp h64 => ?_⟩, ?_,
    fun _ _ _ => rfl⟩
  · dsimp only
    omega
  · exact h.stale hold p (hcap.trans hp) h64
  · ext p
    rw [mem_members, mem_members, dataPtr_of_direct hnew, dataPtr_of_direct hold]
    dsimp only
    constructor
    · rintro ⟨hlt, hbit⟩
      refine ⟨Nat.lt_of_not_le fun hle => ?_, hbit⟩
      rw [h.stale hold p hle (by omega)] at hbit
      exact Bool.false_ne_true hbit
    · rintro ⟨hlt, hbit⟩
      exact ⟨by omega, hbit⟩

theorem toBuffer_spec (h : Ok m k) {n : Nat} (hcap : k.capacity ≤ 32 * n) (hlarge : 64 < 32 * n)
    (hsmall : 32 * n + 32 ≤ 2 ^ 32) (haddr : addr ≠ 0) (hun : Unowned k addr n)
    (hcopies : GrowthCopies m k addr) :
    ∃ m', toBuffer m k (32 * n) addr = some m' ∧
      Becomes m m' k ⟨32 * n, k.storage, addr⟩ (members m k) := by
  have hnew : ¬ IsDirect ⟨32 * n, k.storage, addr⟩ := Nat.not_le_of_lt hlarge
  have hvalid := BitString.valid_buffer (show 32 * n + 31 < 2 ^ 32 by omega) haddr
  have hbase : BitString.base ⟨32 * n, addr, 0⟩ = 32 * addr := rfl
  have hdata := hun.data h
  obtain ⟨m1, hm1, hcleared⟩ := BitString.clearAll_spec m hvalid (show 0 < 32 * n by omega)
  rw [hbase] at hcleared
  -- the old bits are still there
  have hkept : ∀ p, p < k.capacity → m1.bit (32 * k.dataPtr + p) = m.bit (32 * k.dataPtr + p) := by
    intro p hp
    by_cases hbehind : 32 * addr + 32 * n ≤ 32 * k.dataPtr + p
    · exact hcleared.bit_of_le hbehind
    · exact hcleared.bit_of_lt (by omega)
  have hvalid1 := h.valid
  obtain ⟨zero, hzero, hiff⟩ := BitString.isZero_spec m1 h.valid
  have hempty : zero = true ↔ members m k = ∅ := by
    rw [hiff, Finset.eq_empty_iff_forall_notMem]
    refine forall_congr' fun p => ?_
    rw [mem_members, base_string]
    constructor
    · rintro hall ⟨hp, hbit⟩
      rw [← hkept p hp, hall hp] at hbit
      exact Bool.false_ne_true hbit
    · intro hnot hp
      rw [hkept p hp]
      exact Bool.eq_false_iff.mpr fun hbit => hnot ⟨hp, hbit⟩
  -- the buffer holds the set, and nothing else is written
  obtain ⟨m2, hm2, hwrites⟩ : ∃ m2,
      (if !zero then BitString.setWhole m1 ⟨32 * n, addr, 0⟩ k.string else some m1) = some m2 ∧
      Writes m m2 (32 * addr) (32 * addr + 32 * n) fun x => decide (x - 32 * addr ∈ members m k) := by
    cases zero with
    | true =>
      refine ⟨m1, rfl, hcleared.congr fun x _ _ => ?_⟩
      rw [hempty.mp rfl]
      rfl
    | false =>
      have hne : members m k ≠ ∅ := fun heq => Bool.false_ne_true (hempty.mpr heq)
      obtain ⟨p, hp⟩ := Finset.nonempty_iff_ne_empty.mpr hne
      have hpos : 0 < k.capacity := Nat.zero_lt_of_lt (mem_members.1 hp).1
      have hactLen : BitString.actLen ⟨32 * n, addr, 0⟩ k.capacity 0 = k.capacity :=
        Nat.min_eq_left hcap
      have hback : ¬ BitString.LostBackward ⟨32 * n, addr, 0⟩ k.string 0 k.capacity 0 := by
        rintro ⟨hup, hlong⟩
        rw [hactLen] at hlong
        rw [base_string, hbase] at hup
        rcases hcopies with heq | hle | hshort
        · exact hne heq
        · omega
        · omega
      obtain ⟨m2, hm2, hcopied⟩ := BitString.setString_copies h.valid hvalid hpos
        (Nat.le_of_eq (Nat.zero_add _)) (show 0 < 32 * n by omega) hback m1
      rw [hactLen, Nat.add_zero, base_string, hbase] at hcopied
      have hwrites := BitString.copied_buffer hcleared hcopied
        (show 0 + k.capacity ≤ 32 * n by omega) fun i hi => hkept i hi
      refine ⟨m2, hm2, hwrites.congr fun x hlo hhi => ?_⟩
      rw [Bool.eq_iff_iff, decide_eq_true_iff, mem_members]
      simp
  refine ⟨m2.put k.storage 0#32, ?_, ⟨⟨n, rfl⟩, hsmall, h.storage_ne, fun _ => haddr,
    fun hdirect => absurd hdirect hnew⟩, ?_, fun a _ ha => ?_⟩
  · unfold toBuffer
    simp only [Option.bind_eq_bind]
    rw [hm1, Option.bind_some, hzero, Option.bind_some]
    cases zero with
    | true =>
      obtain rfl := Option.some.inj hm2
      rfl
    | false =>
      show (BitString.setWhole m1 ⟨32 * n, addr, 0⟩ k.string).bind _ = _
      rw [show BitString.setWhole m1 ⟨32 * n, addr, 0⟩ k.string = some m2 from hm2]
      rfl
  · ext p
    rw [mem_members, dataPtr_of_not_direct hnew]
    dsimp only
    by_cases hp : p < 32 * n
    · have hne : (32 * addr + p) / 32 ≠ k.storage := fun heq =>
        hun k.storage (by omega) (by omega) (Or.inl ⟨Nat.le_refl _, by omega⟩)
      rw [BitString.bit_put, if_neg hne, hwrites.bit_of_mem (by omega) (by omega),
        Nat.add_sub_cancel_left, decide_eq_true_iff]
      exact and_iff_right hp
    · exact iff_of_false (fun hboth => hp hboth.1) fun hmem => by
        have hlt := (mem_members.1 hmem).1
        omega
  · have hstorage : a ≠ k.storage := fun heq => ha (Or.inl ⟨heq.ge, by dsimp only; omega⟩)
    rw [put_of_ne _ _ hstorage]
    refine hwrites.word_eq ?_
    have hout : ¬ (addr ≤ a ∧ a < addr + n) := fun hin => by
      refine ha (Or.inr ⟨hnew, hin.1, ?_⟩)
      dsimp only
      omega
    omega

theorem reAllocate_spec (h : Ok m k) (hlen : len + 32 ≤ 2 ^ 32) (haddr : addr ≠ 0)
    (hun : Unowned k addr (getWordSize len)) (hcopies : GrowthCopies m k addr) :
    ∃ m' k', reAllocate m k len addr = some (m', k') ∧ Becomes m m' k k' (members m k) ∧
      Grows k k' addr (getWordSize len) ∧ k.capacity ≤ k'.capacity ∧ len ≤ k'.capacity := by
  unfold reAllocate
  by_cases hgrow : len > k.capacity
  · rw [if_pos hgrow]
    have hsize := getWordSize_eq len
    generalize hn : getWordSize len = n at hun hsize ⊢
    have hmod : 32 * n % 2 ^ 32 = 32 * n := Nat.mod_eq_of_lt (by omega)
    have hcap : k.capacity ≤ 32 * n := by omega
    have hcover : len ≤ 32 * n := by omega
    dsimp only
    rw [hmod]
    by_cases hdirect : IsDirect { k with capacity := 32 * n }
    · rw [if_neg (not_not.mpr hdirect)]
      refine ⟨m, _, rfl, becomes_direct h hcap hdirect, ⟨rfl, ?_⟩, hcap, hcover⟩
      rintro a (ha | ⟨hnot, -⟩)
      · exact Or.inl (Or.inl ha)
      · exact absurd hdirect hnot
    · obtain ⟨m', hm', hbecomes⟩ := toBuffer_spec h hcap (Nat.lt_of_not_le hdirect) (by omega) haddr
        hun hcopies
      rw [if_pos hdirect, hm']
      refine ⟨m', _, rfl, hbecomes, ⟨rfl, ?_⟩, hcap, hcover⟩
      rintro a (ha | ⟨-, hlo, hhi⟩)
      · exact Or.inl (Or.inl ha)
      · refine Or.inr ⟨hlo, ?_⟩
        rwa [Nat.mul_div_cancel_left n (by decide)] at hhi
  · rw [if_neg hgrow]
    exact ⟨m, k, rfl, ⟨h, rfl, fun _ _ _ => rfl⟩, Grows.refl k addr _, Nat.le_refl _,
      Nat.le_of_not_lt hgrow⟩

/-! ## The operations on one key -/

theorem setBit_spec (h : Ok m k) (hp : p + 32 < 2 ^ 32) (haddr : addr ≠ 0)
    (hun : Unowned k addr (getWordSize (p + 1)))
    (hcopies : p < k.capacity ∨ GrowthCopies m k addr) :
    ∃ m' k', setBit m k p addr = some (m', k') ∧ Becomes m m' k k' (insert p (members m k)) ∧
      Grows k k' addr (getWordSize (p + 1)) := by
  have hmod : (p + 1) % 2 ^ 32 = p + 1 := Nat.mod_eq_of_lt (by omega)
  unfold setBit
  simp only [Option.bind_eq_bind]
  rw [hmod]
  by_cases hfit : p ≥ k.capacity
  · obtain ⟨m1, k', hm1, hbecomes, hgrows, -, hcap⟩ :=
      reAllocate_spec h (show p + 1 + 32 ≤ 2 ^ 32 by omega) haddr hun
        (hcopies.resolve_left (Nat.not_lt_of_le hfit))
    obtain ⟨m', hm', hok, hmembers, hframe⟩ := string_setBit_spec hbecomes.ok hcap
    rw [if_pos hfit, hm1, Option.bind_some, hm']
    refine ⟨m', k', rfl, ⟨hok, ?_, fun a hold ha => ?_⟩, hgrows⟩
    · rw [hmembers, hbecomes.members_eq]
    · rw [hframe a ha, hbecomes.frame a hold ha]
  · obtain ⟨m', hm', hok, hmembers, hframe⟩ := string_setBit_spec h (Nat.lt_of_not_le hfit)
    rw [if_neg hfit, Option.bind_some, hm']
    exact ⟨m', k, rfl, ⟨hok, hmembers, fun a _ => hframe a⟩, Grows.refl k addr _⟩

/-- The words of two keys. -/
def Disjoint (k b : BitKey) : Prop := ∀ a, ¬ (k.Owns a ∧ b.Owns a)

theorem clear_spec (h : Ok m k) :
    ∃ m', k.clear m = some m' ∧ Becomes m m' k k ∅ := by
  unfold clear
  by_cases hzero : k.capacity = 0
  · rw [if_neg (not_not.mpr hzero)]
    refine ⟨m, rfl, h, Finset.eq_empty_of_forall_notMem fun p hp => ?_, fun _ _ _ => rfl⟩
    exact absurd (mem_members.1 hp).1 (by omega)
  · obtain ⟨m', hm', hw⟩ := BitString.clearAll_spec m h.valid (Nat.pos_of_ne_zero hzero)
    obtain ⟨hok, hframe⟩ := h.write hw (Nat.le_refl _) (Nat.le_refl _)
    rw [if_pos hzero, hm']
    refine ⟨m', rfl, hok, Finset.eq_empty_of_forall_notMem fun p hp => ?_, fun a _ => hframe a⟩
    obtain ⟨hlt, hbit⟩ := mem_members.1 hp
    rw [← base_string, hw.bit_of_mem (Nat.le_add_right _ _) (Nat.add_lt_add_left hlt _)] at hbit
    exact Bool.false_ne_true hbit

theorem bit_memcpy {dst src n : Nat} (hp : p < 32 * n) :
    (m.memcpy dst src n).bit (32 * dst + p) = m.bit (32 * src + p) := by
  have hdiv : (32 * dst + p) / 32 = dst + p / 32 := by omega
  have hmod : (32 * dst + p) % 32 = p % 32 := by omega
  have hsrc : (32 * src + p) / 32 = src + p / 32 := by omega
  have hsrc' : (32 * src + p) % 32 = p % 32 := by omega
  unfold bit memcpy
  rw [hdiv, hmod, hsrc, hsrc', if_pos ⟨Nat.le_add_right _ _, by omega⟩, Nat.add_sub_cancel_left]

theorem bit_memcpy_of_le {dst src n x : Nat} (hx : x < 32 * dst ∨ 32 * (dst + n) ≤ x) :
    (m.memcpy dst src n).bit x = m.bit x := by
  unfold bit memcpy
  rw [if_neg (by omega)]

theorem copyStorage_eq {dst src : Nat} (hne : src + 1 ≠ dst) :
    copyStorage2 (copyStorage1 m dst src) dst src = m.memcpy dst src 2 := by
  funext a
  unfold copyStorage2 copyStorage1 memcpy
  by_cases h1 : a = dst + 1
  · subst h1
    rw [put_same, put_of_ne _ _ hne, if_pos (by omega), Nat.add_sub_cancel_left]
  · rw [put_of_ne _ _ h1]
    by_cases h0 : a = dst
    · subst h0
      rw [put_same, if_pos (by omega), Nat.sub_self, Nat.add_zero]
    · rw [put_of_ne _ _ h0, if_neg (by omega)]

/-- A key whose words were copied from those of another: both words of the object, or the
words that the other has, behind which there is nothing. -/
theorem becomes_memcpy {n : Nat} (hb : Ok m b) (haligned : 32 ∣ k.capacity)
    (hsmall : k.capacity + 32 ≤ 2 ^ 32) (hstorage : k.storage ≠ 0)
    (hbuffer : ¬ k.IsDirect → k.buffer ≠ 0) (hcap : b.capacity ≤ k.capacity)
    (hrest : ¬ k.IsDirect → ∀ p, b.capacity ≤ p → p < k.capacity →
      m.bit (32 * k.dataPtr + p) = false)
    (hn : n = if k.IsDirect then 2 else b.capacity / 32) :
    Becomes m (m.memcpy k.dataPtr b.dataPtr n) k k (members m b) := by
  have hdiv := hb.div_mul
  have hlast : b.capacity / 32 ≤ k.capacity / 32 := Nat.div_le_div_right hcap
  by_cases hdirect : k.IsDirect
  · have hcap64 : k.capacity ≤ 64 := hdirect
    have hdirect' : b.IsDirect := hcap.trans hcap64
    rw [if_pos hdirect] at hn
    subst hn
    rw [dataPtr_of_direct hdirect, dataPtr_of_direct hdirect']
    refine ⟨⟨haligned, hsmall, hstorage, hbuffer, fun _ p hp h64 => ?_⟩, ?_, fun a _ ha => ?_⟩
    · rw [bit_memcpy (by omega)]
      exact hb.stale hdirect' p (hcap.trans hp) h64
    · ext p
      rw [mem_members, mem_members, dataPtr_of_direct hdirect, dataPtr_of_direct hdirect']
      constructor
      · rintro ⟨hp, hbit⟩
        rw [bit_memcpy (by omega)] at hbit
        refine ⟨Nat.lt_of_not_le fun hle => ?_, hbit⟩
        rw [hb.stale hdirect' p hle (by omega)] at hbit
        exact Bool.false_ne_true hbit
      · rintro ⟨hp, hbit⟩
        rw [bit_memcpy (by omega)]
        exact ⟨by omega, hbit⟩
    · unfold memcpy
      rw [if_neg fun hin => ha (Or.inl hin)]
  · rw [if_neg hdirect] at hn
    subst hn
    refine ⟨⟨haligned, hsmall, hstorage, hbuffer, fun hd => absurd hd hdirect⟩, ?_,
      fun a _ ha => ?_⟩
    · ext p
      rw [mem_members, mem_members]
      by_cases hp : p < b.capacity
      · rw [bit_memcpy (by omega)]
        exact and_congr_left fun _ => iff_of_true (by omega) hp
      · refine iff_of_false ?_ fun hboth => hp hboth.1
        rintro ⟨hlt, hbit⟩
        rw [bit_memcpy_of_le (by omega), hrest hdirect p (Nat.le_of_not_lt hp) hlt] at hbit
        exact Bool.false_ne_true hbit
    · rw [dataPtr_of_not_direct hdirect]
      unfold memcpy
      rw [if_neg fun hin => ha (Or.inr ⟨hdirect, hin.1, by omega⟩)]

theorem assign_spec (hk : Ok m k) (hb : Ok m b) (hdisjoint : Disjoint k b) (haddr : addr ≠ 0)
    (hun : Unowned k addr (getWordSize b.capacity))
    (hun' : Unowned b addr (getWordSize b.capacity)) :
    ∃ m' k', assign m k b addr = some (m', k') ∧ Becomes m m' k k' (members m b) ∧
      Grows k k' addr (getWordSize b.capacity) := by
  obtain ⟨m1, hm1, hclear⟩ := clear_spec hk
  obtain ⟨m2, k', hm2, hgrow, hgrows, -, hcap⟩ := reAllocate_spec hclear.ok hb.small haddr hun
    (Or.inl hclear.members_eq)
  -- the words of the source are none of these
  have hsame : ∀ a, b.Owns a → m2 a = m a := by
    intro a ha
    have hnot : ¬ k.Owns a := fun hk => hdisjoint a ⟨hk, ha⟩
    have hnot' : ¬ k'.Owns a := fun hk' => by
      rcases hgrows.2 a hk' with hk | ⟨hlo, hhi⟩
      · exact hnot hk
      · exact hun' a hlo hhi ha
    rw [hgrow.frame a hnot hnot', hclear.frame a hnot hnot]
  obtain ⟨hb2, hmembers⟩ := hb.congr hsame
  have hok := hgrow.ok
  have hrest : ¬ k'.IsDirect → ∀ p, b.capacity ≤ p → p < k'.capacity →
      m2.bit (32 * k'.dataPtr + p) = false := by
    intro _ p _ hp
    refine Bool.eq_false_iff.mpr fun hbit => ?_
    have hmem : p ∈ members m2 k' := mem_members.2 ⟨hp, hbit⟩
    rw [hgrow.members_eq, hclear.members_eq] at hmem
    exact absurd hmem (Finset.notMem_empty p)
  have hcopied := becomes_memcpy hb2 hok.aligned hok.small hok.storage_ne hok.buffer_ne hcap hrest
    rfl
  rw [hmembers] at hcopied
  have hbecomes : Becomes m (m2.memcpy k'.dataPtr b.dataPtr
      (if k'.IsDirect then 2 else b.capacity / 32)) k k' (members m b) :=
    ⟨hcopied.ok, hcopied.members_eq, fun a hold ha => by
      rw [hcopied.frame a ha ha, hgrow.frame a hold ha, hclear.frame a hold hold]⟩
  refine ⟨_, k', ?_, hbecomes, hgrows⟩
  unfold assign
  simp only [Option.bind_eq_bind]
  rw [hm1, Option.bind_some, hm2, Option.bind_some]
  dsimp only
  by_cases hdirect : k'.IsDirect
  · have hdirect' : b.IsDirect := hcap.trans hdirect
    have hne : b.storage + 1 ≠ k'.storage := fun heq =>
      hdisjoint (b.storage + 1) ⟨Or.inl (by rw [heq, hgrows.1]; omega), Or.inl (by omega)⟩
    rw [if_pos hdirect, if_pos hdirect, copyStorage_eq hne, dataPtr_of_direct hdirect,
      dataPtr_of_direct hdirect']
  · have hsize : getWordSize b.capacity = b.capacity / 32 := by
      have hdiv := hb.div_mul
      rw [getWordSize_eq]
      omega
    rw [if_neg hdirect, if_neg hdirect, hsize, dataPtr_of_not_direct hdirect]

/-- The copy constructor, into an object that has no word in common with the key. -/
theorem copy_spec {storage : Nat} (hb : Ok m b) (hstorage : storage ≠ 0) (haddr : addr ≠ 0)
    (hobject : Unowned b storage 2) :
    ∃ m' k', copy m b storage addr = (m', k') ∧ Becomes m m' k' k' (members m b) ∧
      k'.storage = storage ∧ ∀ a, k'.Owns a →
        (storage ≤ a ∧ a < storage + 2) ∨ (addr ≤ a ∧ a < addr + b.capacity / 32) := by
  have hdiv := hb.div_mul
  unfold copy
  dsimp only
  by_cases hdirect : b.IsDirect
  · have hdirect' : IsDirect { b with storage := storage } := hdirect
    have hne : b.storage + 1 ≠ storage := fun heq =>
      hobject storage (Nat.le_refl _) (by omega) (Or.inl (by omega))
    have hcopied := becomes_memcpy (k := { b with storage := storage }) hb hb.aligned hb.small
      hstorage (fun hnot => absurd hdirect' hnot) (Nat.le_refl _)
      (fun hnot => absurd hdirect' hnot) rfl
    rw [if_pos hdirect', dataPtr_of_direct hdirect', dataPtr_of_direct hdirect] at hcopied
    refine ⟨_, _, if_pos hdirect', ?_, rfl, ?_⟩
    · rw [copyStorage_eq hne]
      exact hcopied
    · rintro a (ha | ⟨hnot, -⟩)
      · exact Or.inl ha
      · exact absurd hdirect' hnot
  · have hindirect : ¬ IsDirect { b with storage := storage } := hdirect
    have hnew : ¬ IsDirect ⟨b.capacity, storage, addr⟩ := hdirect
    have hsize : getWordSize b.capacity = b.capacity / 32 := by
      rw [getWordSize_eq]
      omega
    have hsame : ∀ a, b.Owns a → copyStorage1 m storage b.storage a = m a := fun a ha =>
      put_of_ne _ _ fun heq => hobject a (heq ▸ Nat.le_refl _) (by omega) ha
    obtain ⟨hb1, hmembers⟩ := hb.congr hsame
    have hcopied := becomes_memcpy (k := ⟨b.capacity, storage, addr⟩) hb1 hb.aligned hb.small
      hstorage (fun _ => haddr) (Nat.le_refl _)
      (fun _ p hle hlt => absurd hlt (Nat.not_lt_of_le hle)) rfl
    rw [if_neg hnew, dataPtr_of_not_direct hnew, dataPtr_of_not_direct hdirect, hmembers]
      at hcopied
    refine ⟨_, _, if_neg hindirect, ?_, rfl, ?_⟩
    · rw [hsize]
      refine ⟨hcopied.ok, hcopied.members_eq, fun a ha _ => ?_⟩
      have hne : a ≠ storage := fun heq => ha (Or.inl ⟨heq.ge, by dsimp only; omega⟩)
      rw [hcopied.frame a ha ha]
      exact put_of_ne _ _ hne
    · rintro a (ha | ⟨-, hlo, hhi⟩)
      · exact Or.inl ha
      · exact Or.inr ⟨hlo, hhi⟩

end BitKey

end Hostboot.Prdf.InMemory
