import Hostboot.Prdf.BitFields

/-!
# The operators of bit strings in memory

The operators of `prdfBitString.C`, which leave their result in a buffer of its own.  `new`
gives the buffer, so it shares no memory with the operands (`Apart`).

Two of them are wrong for some strings.  `operator<<` lays a string over the buffer of its
operand at the shift, and so forgets the offset of the operand.  Both shifts copy by
`setString`, which copies nothing when more than `2 ^ 31` bits go to a higher address.
-/

namespace Hostboot.Prdf.InMemory

open Hostboot.Lib Hostboot.Lib.WordMem

namespace BitString

/-! ## The functions of the source -/

/-- A loop that looks at the fields of a string until a test of one fails. -/
def allChunks (test : Nat → Nat → Option Bool) (endPos : Nat) : Nat → Nat → Option Bool
  | 0, _ => none
  | fuel + 1, pos =>
    if pos < endPos then
      (test pos (min 32 (endPos - pos))).bind fun ok =>
        if ok then allChunks test endPos fuel ((pos + 32) % 2 ^ 32) else some false
    else some true

def isZero (m : Mem) (bs : BitString) : Option Bool :=
  allChunks (fun pos len => (getField m bs pos len).map fun val => decide (val = 0#32)) bs.bitLen
    (bs.bitLen + 1) 0

def clearAll (m : Mem) (bs : BitString) : Option Mem := setPattern m bs 0 bs.bitLen 0 32

/-- `BitStringBuffer( i_bitLen )`, where `new` gives the words from `addr` on. -/
def buffer (m : Mem) (bitLen addr : Nat) : Option (Mem × BitString) := do
  let bsb : BitString := ⟨bitLen, addr, 0⟩
  let zero ← isZero m bsb
  let m ← if zero then some m else clearAll m bsb
  some (m, bsb)

/-- The loop of the operators: a new buffer of `n` bits, written field by field. -/
def fill (m : Mem) (n addr : Nat) (body : BitString → Nat → Nat → Mem → Option Mem) :
    Option (Mem × BitString) := do
  let (m, bsb) ← buffer m n addr
  let m ← forChunks (body bsb) 32 n (n + 1) 0 m
  some (m, bsb)

/-- `operator~`. -/
def not (m : Mem) (bs : BitString) (addr : Nat) : Option (Mem × BitString) :=
  fill m bs.bitLen addr fun bsb pos len m => do
    let dVal ← getField m bs pos len
    setField m bsb pos len (~~~dVal)

/-- `operator&` and `operator|`, for the operation on CPU words. -/
def zip (op : CPU_WORD → CPU_WORD → CPU_WORD) (m : Mem) (bs i_bs : BitString) (addr : Nat) :
    Option (Mem × BitString) :=
  fill m (min bs.bitLen i_bs.bitLen) addr fun bsb pos len m => do
    let dVal ← getField m bs pos len
    let sVal ← getField m i_bs pos len
    setField m bsb pos len (op dVal sVal)

/-- `operator&`. -/
def and (m : Mem) (bs i_bs : BitString) (addr : Nat) : Option (Mem × BitString) :=
  zip (· &&& ·) m bs i_bs addr

/-- `operator|`. -/
def or (m : Mem) (bs i_bs : BitString) (addr : Nat) : Option (Mem × BitString) :=
  zip (· ||| ·) m bs i_bs addr

/-- `setString` of a whole string. -/
def setWhole (m : Mem) (bs sStr : BitString) : Option Mem := setString m bs sStr 0 sStr.bitLen 0

/-- `operator>>`. -/
def shiftRight (m : Mem) (bs : BitString) (shift addr : Nat) : Option (Mem × BitString) := do
  let (m, bsb) ← buffer m bs.bitLen addr
  if shift < bs.bitLen then
    let bso : BitString := ⟨bsb.bitLen - shift, bsb.bufAddr, shift⟩
    let m ← setWhole m bso bs
    some (m, bsb)
  else some (m, bsb)

/-- `operator<<`. -/
def shiftLeft (m : Mem) (bs : BitString) (shift addr : Nat) : Option (Mem × BitString) := do
  let (m, bsb) ← buffer m bs.bitLen addr
  if shift < bs.bitLen then
    let bso : BitString := ⟨bs.bitLen - shift, bs.bufAddr, shift⟩
    let m ← setWhole m bsb bso
    some (m, bsb)
  else some (m, bsb)

/-! ## Buffers -/

variable {m m' : Mem} {bs i_bs : BitString} {shift addr : Nat}

theorem allChunks_spec (test : Nat → Nat → Option Bool) {q : Nat → Prop} {endPos : Nat}
    (hbound : endPos + 32 ≤ 2 ^ 32)
    (htest : ∀ pos, pos < endPos → ∃ ok, test pos (min 32 (endPos - pos)) = some ok ∧
      (ok = true ↔ ∀ i, pos ≤ i → i < pos + min 32 (endPos - pos) → q i))
    {fuel pos : Nat} (hfuel : endPos - pos < fuel) :
    ∃ ok, allChunks test endPos fuel pos = some ok ∧
      (ok = true ↔ ∀ i, pos ≤ i → i < endPos → q i) := by
  induction fuel generalizing pos with
  | zero => exact absurd hfuel (Nat.not_lt_zero _)
  | succ fuel ih =>
    rw [allChunks]
    by_cases hlt : pos < endPos
    · obtain ⟨ok, hok, hhere⟩ := htest pos hlt
      rw [if_pos hlt, hok, Option.bind_some]
      cases ok with
      | false =>
        refine ⟨false, rfl, iff_of_false Bool.false_ne_true fun hall => ?_⟩
        exact Bool.false_ne_true (hhere.mpr fun i hi hi' => hall i hi (by omega))
      | true =>
        have hmod : (pos + 32) % 2 ^ 32 = pos + 32 := Nat.mod_eq_of_lt (by omega)
        obtain ⟨ok, hok', hrest⟩ := ih (show endPos - (pos + 32) < fuel by omega)
        rw [if_pos rfl, hmod]
        refine ⟨ok, hok', hrest.trans ⟨fun hall i hi hi' => ?_, fun hall i hi hi' => ?_⟩⟩
        · by_cases hnear : i < pos + 32
          · exact hhere.mp rfl i hi (by omega)
          · exact hall i (by omega) hi'
        · exact hall i (by omega) hi'
    · rw [if_neg hlt]
      refine ⟨true, rfl, iff_of_true rfl fun i hi hi' => ?_⟩
      omega

theorem isZero_spec (m : Mem) (h : Valid bs) :
    ∃ zero, isZero m bs = some zero ∧
      (zero = true ↔ ∀ i, i < bs.bitLen → m.bit (bs.base + i) = false) := by
  have hlt := h.lt
  have htest : ∀ pos, pos < bs.bitLen → ∃ ok,
      (getField m bs pos (min 32 (bs.bitLen - pos))).map (fun val => decide (val = 0#32)) = some ok ∧
      (ok = true ↔ ∀ i, pos ≤ i → i < pos + min 32 (bs.bitLen - pos) →
        m.bit (bs.base + i) = false) := by
    intro pos hpos
    obtain ⟨val, hval, hbits⟩ := getField_spec m h (show 0 < min 32 (bs.bitLen - pos) by omega)
      (by omega) (show pos + min 32 (bs.bitLen - pos) ≤ bs.bitLen by omega)
    refine ⟨decide (val = 0#32), by rw [hval]; rfl, ?_⟩
    rw [decide_eq_true_iff]
    constructor
    · rintro rfl i hi hi'
      have hbit := hbits (i - pos)
      rw [BitVec.getMsbD_zero, decide_eq_true (by omega), Bool.true_and, Nat.add_assoc,
        Nat.add_sub_cancel' hi] at hbit
      exact hbit.symm
    · intro hall
      refine BitVec.eq_of_getMsbD_eq fun i _ => ?_
      rw [hbits, BitVec.getMsbD_zero]
      by_cases hi : i < min 32 (bs.bitLen - pos)
      · rw [Nat.add_assoc, hall (pos + i) (by omega) (by omega), Bool.and_false]
      · rw [decide_eq_false hi, Bool.false_and]
  obtain ⟨zero, hzero, hiff⟩ := allChunks_spec
    (fun pos len => (getField m bs pos len).map fun val => decide (val = 0#32))
    (show bs.bitLen + 32 ≤ 2 ^ 32 by omega) htest (show bs.bitLen - 0 < bs.bitLen + 1 by omega)
  exact ⟨zero, hzero, hiff.trans ⟨fun hall i hi => hall i (Nat.zero_le i) hi,
    fun hall i _ hi => hall i hi⟩⟩

theorem clearAll_spec (m : Mem) (h : Valid bs) (hpos : 0 < bs.bitLen) :
    ∃ m', clearAll m bs = some m' ∧
      Writes m m' bs.base (bs.base + bs.bitLen) fun _ => false := by
  obtain ⟨m', hm', hwrites⟩ := setPattern_spec m h hpos (Nat.le_of_eq (Nat.zero_add _))
    (show 0 < 32 by decide) (Nat.le_refl 32) 0
  refine ⟨m', hm', ?_⟩
  rw [Nat.add_zero, Nat.zero_add] at hwrites
  exact hwrites.congr fun x _ _ => BitVec.getMsbD_zero.symm

theorem valid_buffer {n : Nat} (hn : n + 31 < 2 ^ 32) (haddr : addr ≠ 0) : Valid ⟨n, addr, 0⟩ := by
  refine ⟨haddr, ?_⟩
  unfold getNumCpuWords
  dsimp only
  omega

theorem buffer_spec (m : Mem) {n : Nat} (hn : n + 31 < 2 ^ 32) (haddr : addr ≠ 0) :
    ∃ m', buffer m n addr = some (m', ⟨n, addr, 0⟩) ∧
      Writes m m' (32 * addr) (32 * addr + n) fun _ => false := by
  have hvalid := valid_buffer hn haddr
  have hbase : base ⟨n, addr, 0⟩ = 32 * addr := rfl
  obtain ⟨zero, hzero, hiff⟩ := isZero_spec m hvalid
  unfold buffer
  dsimp only
  rw [hzero]
  cases zero with
  | true =>
    refine ⟨m, rfl, Writes.of_eq fun x hlo hhi => ?_⟩
    have hbit := hiff.mp rfl (x - 32 * addr) (by dsimp only; omega)
    rw [hbase, Nat.add_sub_cancel' hlo] at hbit
    exact hbit.symm
  | false =>
    have hpos : 0 < n := by
      rw [Nat.pos_iff_ne_zero]
      rintro rfl
      exact Bool.false_ne_true (hiff.mpr fun i hi => absurd hi (Nat.not_lt_zero i))
    obtain ⟨m', hm', hwrites⟩ := clearAll_spec m hvalid hpos
    refine ⟨m', ?_, hwrites⟩
    show ((clearAll m ⟨n, addr, 0⟩).bind fun m => some (m, (⟨n, addr, 0⟩ : BitString))) = _
    rw [hm']
    rfl

/-- The `n` bits of a new buffer share no memory with the buffer of a string. -/
def Apart (bs : BitString) (addr n : Nat) : Prop :=
  32 * addr + n ≤ 32 * bs.bufAddr ∨ bs.base + bs.bitLen ≤ 32 * addr

theorem Apart.bit_eq {n i : Nat} {v : Nat → Bool} (hapart : Apart bs addr n)
    (h : Writes m m' (32 * addr) (32 * addr + n) v) (hi : i < bs.bitLen) :
    m'.bit (bs.base + i) = m.bit (bs.base + i) := by
  unfold Apart at hapart
  rcases hapart with hbelow | habove
  · refine h.bit_of_le ?_
    unfold base
    omega
  · exact h.bit_of_lt (by omega)

/-! ## The operators -/

/-- The result of an operator: a buffer of `n` bits at `addr` that holds those of `v`. -/
def Result (m : Mem) (r : Option (Mem × BitString)) (n addr : Nat) (v : Nat → Bool) : Prop :=
  ∃ m', r = some (m', ⟨n, addr, 0⟩) ∧
    Writes m m' (32 * addr) (32 * addr + n) fun x => v (x - 32 * addr)

/-- The loop leaves the bits of its fields, which a turn may take from what was there before. -/
theorem fill_spec (m : Mem) {body : BitString → Nat → Nat → Mem → Option Mem} {n : Nat}
    {v : Nat → Bool} (hn : n + 31 < 2 ^ 32) (haddr : addr ≠ 0)
    (hbody : ∀ pos m', pos < n → (∃ w, Writes m m' (32 * addr) (32 * addr + n) w) →
      ∃ val : CPU_WORD, body ⟨n, addr, 0⟩ pos (min 32 (n - pos)) m' =
          setField m' ⟨n, addr, 0⟩ pos (min 32 (n - pos)) val ∧
        ∀ i, i < min 32 (n - pos) → val.getMsbD i = v (pos + i)) :
    Result m (fill m n addr body) n addr v := by
  have hvalid := valid_buffer hn haddr
  have hbase : base ⟨n, addr, 0⟩ = 32 * addr := rfl
  obtain ⟨m0, hm0, hzero⟩ := buffer_spec m hn haddr
  have hturn : ∀ pos m', 0 ≤ pos → 32 ∣ pos - 0 → pos < n →
      Writes m0 m' (32 * addr + 0) (32 * addr + pos) (fun x => v (x - 32 * addr)) →
      ∃ m'', body ⟨n, addr, 0⟩ pos (min 32 (n - pos)) m' = some m'' ∧
        Writes m' m'' (32 * addr + pos) (32 * addr + (pos + min 32 (n - pos)))
          fun x => v (x - 32 * addr) := by
    intro pos m' _ _ hpos hm'
    -- the turns before have written in the buffer only
    have hsofar : ∃ w, Writes m m' (32 * addr) (32 * addr + n) w := by
      refine ⟨fun x => m'.bit x, fun x => ?_⟩
      by_cases hx : 32 * addr ≤ x ∧ x < 32 * addr + n
      · rw [if_pos hx]
      · rw [if_neg hx, hm' x, if_neg (by omega), hzero x, if_neg hx]
    obtain ⟨val, hval, hbits⟩ := hbody pos m' hpos hsofar
    obtain ⟨m'', hm'', hwrites⟩ := setField_spec m' hvalid
      (show 0 < min 32 (n - pos) by omega) (by omega)
      (show pos + min 32 (n - pos) ≤ n by omega) val
    rw [hbase] at hwrites
    refine ⟨m'', hval.trans hm'', hwrites.congr fun x hlo hhi => ?_⟩
    rw [hbits _ (by omega)]
    congr 1
    omega
  obtain ⟨m1, hm1, hwrites⟩ := forChunks_spec (by decide) (by omega) hturn (Nat.zero_le n)
  refine ⟨m1, ?_, hzero.overwrite hwrites⟩
  rw [Nat.sub_zero] at hm1
  unfold fill
  rw [hm0]
  show ((forChunks (body ⟨n, addr, 0⟩) 32 n (n + 1) 0 m0).bind fun m => some (m, _)) = _
  rw [hm1]
  rfl

theorem not_spec (m : Mem) (h : Valid bs) (haddr : addr ≠ 0) (hapart : Apart bs addr bs.bitLen) :
    Result m (not m bs addr) bs.bitLen addr fun i => !m.bit (bs.base + i) := by
  have hlt := h.lt
  refine fill_spec m (show bs.bitLen + 31 < 2 ^ 32 by omega) haddr fun pos m' hpos hm' => ?_
  obtain ⟨w, hw⟩ := hm'
  obtain ⟨dVal, hdVal, hd⟩ := getField_spec m' h (show 0 < min 32 (bs.bitLen - pos) by omega)
    (by omega) (show pos + min 32 (bs.bitLen - pos) ≤ bs.bitLen by omega)
  refine ⟨~~~dVal, ?_, fun i hi => ?_⟩
  · rw [hdVal]
    rfl
  · rw [BitVec.getMsbD_not, decide_eq_true (show i < 32 by omega), Bool.true_and, hd,
      decide_eq_true hi, Bool.true_and, Nat.add_assoc, hapart.bit_eq hw (by omega)]

theorem zip_spec {op : CPU_WORD → CPU_WORD → CPU_WORD} {f : Bool → Bool → Bool}
    (hop : ∀ a b i, i < 32 → (op a b).getMsbD i = f (a.getMsbD i) (b.getMsbD i)) (m : Mem)
    (h : Valid bs) (hi : Valid i_bs) (haddr : addr ≠ 0)
    (hapart : Apart bs addr (min bs.bitLen i_bs.bitLen))
    (hapart' : Apart i_bs addr (min bs.bitLen i_bs.bitLen)) :
    Result m (zip op m bs i_bs addr) (min bs.bitLen i_bs.bitLen) addr
      fun i => f (m.bit (bs.base + i)) (m.bit (i_bs.base + i)) := by
  have hlt := h.lt
  generalize hn : min bs.bitLen i_bs.bitLen = n at hapart hapart' ⊢
  unfold zip
  rw [hn]
  refine fill_spec m (show n + 31 < 2 ^ 32 by omega) haddr fun pos m' hpos hm' => ?_
  obtain ⟨w, hw⟩ := hm'
  obtain ⟨dVal, hdVal, hd⟩ := getField_spec m' h (show 0 < min 32 (n - pos) by omega) (by omega)
    (show pos + min 32 (n - pos) ≤ bs.bitLen by omega)
  obtain ⟨sVal, hsVal, hs⟩ := getField_spec m' hi (show 0 < min 32 (n - pos) by omega) (by omega)
    (show pos + min 32 (n - pos) ≤ i_bs.bitLen by omega)
  refine ⟨op dVal sVal, ?_, fun i hi => ?_⟩
  · rw [hdVal, hsVal]
    rfl
  · rw [hop _ _ _ (by omega), hd, hs, decide_eq_true hi, Bool.true_and, Bool.true_and,
      Nat.add_assoc, Nat.add_assoc, hapart.bit_eq hw (by omega), hapart'.bit_eq hw (by omega)]

theorem and_spec (m : Mem) (h : Valid bs) (hi : Valid i_bs) (haddr : addr ≠ 0)
    (hapart : Apart bs addr (min bs.bitLen i_bs.bitLen))
    (hapart' : Apart i_bs addr (min bs.bitLen i_bs.bitLen)) :
    Result m (and m bs i_bs addr) (min bs.bitLen i_bs.bitLen) addr
      fun i => m.bit (bs.base + i) && m.bit (i_bs.base + i) :=
  zip_spec (fun _ _ _ _ => BitVec.getMsbD_and) m h hi haddr hapart hapart'

theorem or_spec (m : Mem) (h : Valid bs) (hi : Valid i_bs) (haddr : addr ≠ 0)
    (hapart : Apart bs addr (min bs.bitLen i_bs.bitLen))
    (hapart' : Apart i_bs addr (min bs.bitLen i_bs.bitLen)) :
    Result m (or m bs i_bs addr) (min bs.bitLen i_bs.bitLen) addr
      fun i => m.bit (bs.base + i) || m.bit (i_bs.base + i) :=
  zip_spec (fun _ _ _ _ => BitVec.getMsbD_or) m h hi haddr hapart hapart'

/-! ## The shifts -/

/-- The bits of a string shifted right. -/
def shiftedRight (m : Mem) (bs : BitString) (shift i : Nat) : Bool :=
  decide (shift ≤ i) && m.bit (bs.base + (i - shift))

/-- The bits of a string shifted left. -/
def shiftedLeft (m : Mem) (bs : BitString) (shift i : Nat) : Bool :=
  decide (i + shift < bs.bitLen) && m.bit (bs.base + (i + shift))

/-- The copy of `operator>>` comes to its end: it does not go to a higher address, or it is
short. -/
def RightCopies (bs : BitString) (shift addr : Nat) : Prop :=
  32 * addr + shift ≤ bs.base ∨ bs.bitLen - shift ≤ 2 ^ 31

/-- The copy of `operator<<` comes to its end. -/
def LeftCopies (bs : BitString) (shift addr : Nat) : Prop :=
  32 * addr ≤ 32 * bs.bufAddr + shift ∨ bs.bitLen - shift ≤ 2 ^ 31

theorem Valid.overlay (h : Valid bs) (hshift : shift < bs.bitLen) (haddr : addr ≠ 0) :
    Valid ⟨bs.bitLen - shift, addr, shift⟩ := by
  have hlt := h.lt
  refine ⟨haddr, ?_⟩
  unfold getNumCpuWords
  dsimp only
  omega

theorem shiftRight_eq {m0 : Mem}
    (hm0 : buffer m bs.bitLen addr = some (m0, ⟨bs.bitLen, addr, 0⟩)) :
    shiftRight m bs shift addr =
      if shift < bs.bitLen then
        (setString m0 ⟨bs.bitLen - shift, addr, shift⟩ bs 0 bs.bitLen 0).map
          fun m' => (m', ⟨bs.bitLen, addr, 0⟩)
      else some (m0, ⟨bs.bitLen, addr, 0⟩) := by
  unfold shiftRight setWhole
  simp only [Option.bind_eq_bind]
  rw [hm0, Option.bind_some]
  by_cases hshift : shift < bs.bitLen
  · rw [if_pos hshift, if_pos hshift]
    cases setString m0 ⟨bs.bitLen - shift, addr, shift⟩ bs 0 bs.bitLen 0 <;> rfl
  · rw [if_neg hshift, if_neg hshift]

theorem shiftLeft_eq {m0 : Mem}
    (hm0 : buffer m bs.bitLen addr = some (m0, ⟨bs.bitLen, addr, 0⟩)) :
    shiftLeft m bs shift addr =
      if shift < bs.bitLen then
        (setString m0 ⟨bs.bitLen, addr, 0⟩ ⟨bs.bitLen - shift, bs.bufAddr, shift⟩ 0
          (bs.bitLen - shift) 0).map fun m' => (m', ⟨bs.bitLen, addr, 0⟩)
      else some (m0, ⟨bs.bitLen, addr, 0⟩) := by
  unfold shiftLeft setWhole
  simp only [Option.bind_eq_bind]
  rw [hm0, Option.bind_some]
  by_cases hshift : shift < bs.bitLen
  · rw [if_pos hshift, if_pos hshift]
    cases setString m0 ⟨bs.bitLen, addr, 0⟩ ⟨bs.bitLen - shift, bs.bufAddr, shift⟩ 0
      (bs.bitLen - shift) 0 <;> rfl
  · rw [if_neg hshift, if_neg hshift]

theorem copied_buffer {m0 m1 : Mem} {n d k s : Nat}
    (hzero : Writes m m0 (32 * addr) (32 * addr + n) fun _ => false)
    (hcopied : Copied m0 m1 s (32 * addr + d) k) (hfit : d + k ≤ n)
    (hsource : ∀ i, i < k → m0.bit (s + i) = m.bit (s + i)) :
    Writes m m1 (32 * addr) (32 * addr + n) fun x =>
      decide (d ≤ x - 32 * addr ∧ x - 32 * addr < d + k) && m.bit (s + (x - 32 * addr - d)) := by
  intro x
  rw [hcopied x]
  by_cases hin : 32 * addr + d ≤ x ∧ x < 32 * addr + d + k
  · rw [if_pos hin, if_pos (by omega)]
    dsimp only
    rw [decide_eq_true (by omega), Bool.true_and, hsource _ (by omega), Nat.sub_sub]
  · rw [if_neg hin, hzero x]
    by_cases hbuffer : 32 * addr ≤ x ∧ x < 32 * addr + n
    · rw [if_pos hbuffer, if_pos hbuffer]
      dsimp only
      rw [decide_eq_false (by omega), Bool.false_and]
    · rw [if_neg hbuffer, if_neg hbuffer]

/-- The bits in the buffer of a string, those in front of its offset too. -/
theorem Apart.bit_buffer {n x : Nat} {v : Nat → Bool} (hapart : Apart bs addr n)
    (h : Writes m m' (32 * addr) (32 * addr + n) v) (hlo : 32 * bs.bufAddr ≤ x)
    (hhi : x < bs.base + bs.bitLen) : m'.bit x = m.bit x := by
  rcases hapart with hbelow | habove
  · exact h.bit_of_le (by omega)
  · exact h.bit_of_lt (by omega)

section

variable (h : Valid bs) (haddr : addr ≠ 0) (hapart : Apart bs addr bs.bitLen)

include h haddr hapart

theorem shiftRight_spec (hcopies : bs.bitLen ≤ shift ∨ RightCopies bs shift addr) (m : Mem) :
    Result m (shiftRight m bs shift addr) bs.bitLen addr (shiftedRight m bs shift) := by
  have hlt := h.lt
  obtain ⟨m0, hm0, hzero⟩ := buffer_spec m (show bs.bitLen + 31 < 2 ^ 32 by omega) haddr
  unfold Result shiftedRight
  rw [shiftRight_eq hm0]
  by_cases hshift : shift < bs.bitLen
  · have hback : ¬ LostBackward ⟨bs.bitLen - shift, addr, shift⟩ bs 0 bs.bitLen 0 := by
      unfold LostBackward actLen base
      unfold RightCopies base at hcopies
      dsimp only
      omega
    obtain ⟨m1, hm1, hcopied⟩ := setString_copies h (h.overlay hshift haddr)
      (show 0 < bs.bitLen by omega) (by omega) (show 0 < bs.bitLen - shift by omega) hback m0
    have hactLen : actLen ⟨bs.bitLen - shift, addr, shift⟩ bs.bitLen 0 = bs.bitLen - shift := by
      unfold actLen
      dsimp only
      omega
    have hbase : base ⟨bs.bitLen - shift, addr, shift⟩ = 32 * addr + shift := rfl
    rw [hactLen, Nat.add_zero, Nat.add_zero, hbase] at hcopied
    rw [if_pos hshift, hm1]
    have hwrites := copied_buffer hzero hcopied (by omega) fun i hi =>
      hapart.bit_eq hzero (by omega)
    refine ⟨m1, rfl, hwrites.congr fun x hlo hhi => ?_⟩
    by_cases hin : shift ≤ x - 32 * addr
    · rw [decide_eq_true hin, decide_eq_true (by omega)]
    · rw [decide_eq_false hin, decide_eq_false (by omega), Bool.false_and]
  · rw [if_neg hshift]
    refine ⟨m0, rfl, hzero.congr fun x hlo hhi => ?_⟩
    rw [decide_eq_false (by omega), Bool.false_and]

theorem shiftRight_iff :
    (∀ m, Result m (shiftRight m bs shift addr) bs.bitLen addr (shiftedRight m bs shift)) ↔
      bs.bitLen ≤ shift ∨ RightCopies bs shift addr := by
  refine ⟨fun hall => ?_, shiftRight_spec h haddr hapart⟩
  by_contra hlost
  have hlt := h.lt
  have hshift : shift < bs.bitLen := Nat.lt_of_not_le fun hle => hlost (Or.inl hle)
  have hback : LostBackward ⟨bs.bitLen - shift, addr, shift⟩ bs 0 bs.bitLen 0 := by
    unfold LostBackward actLen base
    unfold RightCopies base at hlost
    dsimp only
    omega
  -- the first bit of the string is set, and it does not come through
  obtain ⟨m0, hm0, hzero⟩ :=
    buffer_spec (oneBit 32 bs.base) (show bs.bitLen + 31 < 2 ^ 32 by omega) haddr
  obtain ⟨m1, hm1, hwrites⟩ := hall (oneBit 32 bs.base)
  rw [shiftRight_eq hm0, if_pos hshift, setString_lost h (h.overlay hshift haddr)
    (show 0 < bs.bitLen by omega) (by omega) (show 0 < bs.bitLen - shift by omega) hback] at hm1
  obtain ⟨rfl, -⟩ := Prod.mk.inj (Option.some.inj hm1)
  have hbit := hwrites.bit_of_mem (Nat.le_add_right _ shift) (by omega)
  rw [hzero.bit_of_mem (Nat.le_add_right _ shift) (by omega), Nat.add_sub_cancel_left] at hbit
  unfold shiftedRight at hbit
  rw [Nat.sub_self, Nat.add_zero, bit_oneBit (by decide)] at hbit
  simp at hbit

/-- `operator<<`, where the string has no offset and the copy comes to its end. -/
theorem shiftLeft_spec
    (hcopies : bs.bitLen ≤ shift ∨ (bs.offset = 0 ∧ LeftCopies bs shift addr)) (m : Mem) :
    Result m (shiftLeft m bs shift addr) bs.bitLen addr (shiftedLeft m bs shift) := by
  have hlt := h.lt
  obtain ⟨m0, hm0, hzero⟩ := buffer_spec m (show bs.bitLen + 31 < 2 ^ 32 by omega) haddr
  unfold Result shiftedLeft
  rw [shiftLeft_eq hm0]
  by_cases hshift : shift < bs.bitLen
  · obtain ⟨hoffset, hlen⟩ := hcopies.resolve_left (Nat.not_le_of_lt hshift)
    have hbase : base ⟨bs.bitLen - shift, bs.bufAddr, shift⟩ = bs.base + shift := by
      unfold base
      dsimp only
      omega
    have hactLen : actLen ⟨bs.bitLen, addr, 0⟩ (bs.bitLen - shift) 0 = bs.bitLen - shift := by
      unfold actLen
      dsimp only
      omega
    have hback : ¬ LostBackward ⟨bs.bitLen, addr, 0⟩ ⟨bs.bitLen - shift, bs.bufAddr, shift⟩ 0
        (bs.bitLen - shift) 0 := by
      unfold LostBackward
      rw [hactLen]
      unfold base
      unfold LeftCopies at hlen
      dsimp only
      omega
    obtain ⟨m1, hm1, hcopied⟩ := setString_copies (h.overlay hshift h.nonnull)
      (valid_buffer (show bs.bitLen + 31 < 2 ^ 32 by omega) haddr)
      (show 0 < bs.bitLen - shift by omega) (Nat.le_of_eq (Nat.zero_add _))
      (show 0 < bs.bitLen by omega) hback m0
    rw [hactLen, hbase, Nat.add_zero] at hcopied
    rw [if_pos hshift, hm1]
    have hwrites := copied_buffer hzero hcopied (by omega) fun i hi => by
      rw [Nat.add_assoc]
      exact hapart.bit_eq hzero (by omega)
    refine ⟨m1, rfl, hwrites.congr fun x hlo hhi => ?_⟩
    rw [Nat.sub_zero, Nat.add_assoc, Nat.add_comm shift]
    congr 1
    rw [decide_eq_decide]
    omega
  · rw [if_neg hshift]
    refine ⟨m0, rfl, hzero.congr fun x hlo hhi => ?_⟩
    rw [decide_eq_false (by omega), Bool.false_and]

/-- `operator<<` shifts every string left exactly when the string has no offset and the copy
comes to its end. -/
theorem shiftLeft_iff :
    (∀ m, Result m (shiftLeft m bs shift addr) bs.bitLen addr (shiftedLeft m bs shift)) ↔
      bs.bitLen ≤ shift ∨ (bs.offset = 0 ∧ LeftCopies bs shift addr) := by
  refine ⟨fun hall => ?_, shiftLeft_spec h haddr hapart⟩
  by_contra hlost
  have hlt := h.lt
  have hshift : shift < bs.bitLen := Nat.lt_of_not_le fun hle => hlost (Or.inl hle)
  have hover := h.overlay hshift h.nonnull
  have hbuffer := valid_buffer (show bs.bitLen + 31 < 2 ^ 32 by omega) haddr
  have hactLen : actLen ⟨bs.bitLen, addr, 0⟩ (bs.bitLen - shift) 0 = bs.bitLen - shift := by
    unfold actLen
    dsimp only
    omega
  -- the bit that comes first is set, and another one is taken for it, or none
  obtain ⟨m0, hm0, hzero⟩ :=
    buffer_spec (oneBit 32 (bs.base + shift)) (show bs.bitLen + 31 < 2 ^ 32 by omega) haddr
  obtain ⟨m1, hm1, hwrites⟩ := hall (oneBit 32 (bs.base + shift))
  rw [shiftLeft_eq hm0, if_pos hshift] at hm1
  have hbit := hwrites.bit_of_mem (Nat.le_refl _) (by omega)
  rw [Nat.sub_self] at hbit
  unfold shiftedLeft at hbit
  rw [Nat.zero_add, decide_eq_true hshift, Bool.true_and, bit_oneBit (by decide),
    decide_eq_true rfl] at hbit
  by_cases hback : LostBackward ⟨bs.bitLen, addr, 0⟩ ⟨bs.bitLen - shift, bs.bufAddr, shift⟩ 0
      (bs.bitLen - shift) 0
  · rw [setString_lost hover hbuffer (show 0 < bs.bitLen - shift by omega)
      (Nat.le_of_eq (Nat.zero_add _)) (show 0 < bs.bitLen by omega) hback] at hm1
    obtain ⟨rfl, -⟩ := Prod.mk.inj (Option.some.inj hm1)
    rw [hzero.bit_of_mem (Nat.le_refl _) (by omega)] at hbit
    exact Bool.false_ne_true hbit
  · have hoffset : bs.offset ≠ 0 := by
      unfold LostBackward at hback
      rw [hactLen] at hback
      unfold base at hback
      unfold LeftCopies at hlost
      dsimp only at hback
      omega
    obtain ⟨m2, hm2, hcopied⟩ := setString_copies hover hbuffer
      (show 0 < bs.bitLen - shift by omega) (Nat.le_of_eq (Nat.zero_add _))
      (show 0 < bs.bitLen by omega) hback m0
    rw [hm2] at hm1
    obtain ⟨rfl, -⟩ := Prod.mk.inj (Option.some.inj hm1)
    rw [hactLen, Nat.add_zero, Nat.add_zero] at hcopied
    have hfirst := hcopied.bit_of_mem (Nat.le_refl _) (by unfold base; dsimp only; omega)
    rw [Nat.sub_self, Nat.add_zero] at hfirst
    have hbuf : base ⟨bs.bitLen, addr, 0⟩ = 32 * addr := rfl
    have hsrc : base ⟨bs.bitLen - shift, bs.bufAddr, shift⟩ = 32 * bs.bufAddr + shift := rfl
    have hbase : bs.base = 32 * bs.bufAddr + bs.offset := rfl
    rw [hbuf, hsrc, hapart.bit_buffer hzero (by omega) (by omega), bit_oneBit (by decide),
      decide_eq_false (by omega)] at hfirst
    rw [hfirst] at hbit
    exact Bool.false_ne_true hbit

end

/-! ## When the operations agree with their definitions -/

theorem setField_getField (m : Mem) (h : Valid bs) {pos len : Nat} (hlen : 0 < len)
    (h32 : len ≤ 32) (hin : pos + len ≤ bs.bitLen) (val : CPU_WORD) :
    ∃ m' o, setField m bs pos len val = some m' ∧ getField m' bs pos len = some o ∧
      (∀ i, o.getMsbD i = (decide (i < len) && val.getMsbD i)) ∧
      ∀ x, x < bs.base + pos ∨ bs.base + (pos + len) ≤ x → m'.bit x = m.bit x := by
  obtain ⟨m', hm', hwrites⟩ := setField_spec m h hlen h32 hin val
  obtain ⟨o, ho, hbits⟩ := getField_spec m' h hlen h32 hin
  refine ⟨m', o, hm', ho, fun i => ?_, fun x hx => ?_⟩
  · rw [hbits]
    by_cases hi : i < len
    · rw [hwrites.bit_of_mem (by omega) (by omega), Nat.add_sub_cancel_left]
    · rw [decide_eq_false hi, Bool.false_and, Bool.false_and]
  · rcases hx with hlo | hhi
    · exact hwrites.bit_of_lt hlo
    · exact hwrites.bit_of_le hhi

theorem setString_iff {sStr : BitString} {sPos sLen dPos : Nat} (hs : Valid sStr) (h : Valid bs)
    (hsLen : 0 < sLen) (hin : sPos + sLen ≤ sStr.bitLen) (hdPos : dPos < bs.bitLen) :
    (∀ m, ∃ m', setString m bs sStr sPos sLen dPos = some m' ∧
        Copied m m' (sStr.base + sPos) (bs.base + dPos) (bs.actLen sLen dPos)) ↔
      ¬ LostBackward bs sStr sPos sLen dPos := by
  refine ⟨fun hall hlost => ?_, setString_copies hs h hsLen hin hdPos⟩
  obtain ⟨m', hm', hcopied⟩ := hall (oneBit 32 (sStr.base + sPos))
  rw [setString_lost hs h hsLen hin hdPos hlost] at hm'
  obtain rfl := Option.some.inj hm'
  have hlong := hlost.2
  have hbit := hcopied.bit_of_mem (Nat.le_refl _) (by omega)
  rw [Nat.sub_self, Nat.add_zero, bit_oneBit (by decide), bit_oneBit (by decide),
    decide_eq_true rfl] at hbit
  exact hlost.1.ne (of_decide_eq_true hbit).symm

/-- The operations agree with their definitions, bit by bit, `setString`, `maskString` and the
shifts exactly under their conditions. -/
theorem bitString_agrees {s : BitString} (h : Valid bs) (hs : Valid s) :
    (∀ m pos len val, 0 < len → len ≤ 32 → pos + len ≤ bs.bitLen →
      ∃ m' o, setField m bs pos len val = some m' ∧ getField m' bs pos len = some o ∧
        (∀ i, o.getMsbD i = (decide (i < len) && val.getMsbD i)) ∧
        ∀ x, x < bs.base + pos ∨ bs.base + (pos + len) ≤ x → m'.bit x = m.bit x) ∧
    (∀ m sPos sLen pattern pLen, 0 < sLen → sPos + sLen ≤ bs.bitLen → 0 < pLen → pLen ≤ 32 →
      ∃ m', setPattern m bs sPos sLen pattern pLen = some m' ∧
        Writes m m' (bs.base + sPos) (bs.base + (sPos + sLen))
          fun x => pattern.getMsbD (32 - pLen + (x - (bs.base + sPos)) % pLen)) ∧
    (∀ sPos sLen dPos, 0 < sLen → sPos + sLen ≤ s.bitLen → dPos < bs.bitLen →
      ((∀ m, ∃ m', setString m bs s sPos sLen dPos = some m' ∧
          Copied m m' (s.base + sPos) (bs.base + dPos) (bs.actLen sLen dPos)) ↔
        ¬ LostBackward bs s sPos sLen dPos)) ∧
    ((∀ m, ∃ m', maskString m bs s = some m' ∧ Masked bs s m m') ↔ MaskAhead bs s) ∧
    ∀ addr, addr ≠ 0 →
      (Apart bs addr bs.bitLen →
        (∀ m, Result m (not m bs addr) bs.bitLen addr fun i => !m.bit (bs.base + i)) ∧
        ∀ shift,
          ((∀ m, Result m (shiftRight m bs shift addr) bs.bitLen addr
              (shiftedRight m bs shift)) ↔
            bs.bitLen ≤ shift ∨ RightCopies bs shift addr) ∧
          ((∀ m, Result m (shiftLeft m bs shift addr) bs.bitLen addr (shiftedLeft m bs shift)) ↔
            bs.bitLen ≤ shift ∨ (bs.offset = 0 ∧ LeftCopies bs shift addr))) ∧
      (Apart bs addr (min bs.bitLen s.bitLen) → Apart s addr (min bs.bitLen s.bitLen) → ∀ m,
        Result m (and m bs s addr) (min bs.bitLen s.bitLen) addr
          (fun i => m.bit (bs.base + i) && m.bit (s.base + i)) ∧
        Result m (or m bs s addr) (min bs.bitLen s.bitLen) addr
          fun i => m.bit (bs.base + i) || m.bit (s.base + i)) := by
  refine ⟨fun m pos len val hlen h32 hin => setField_getField m h hlen h32 hin val,
    fun m sPos sLen pattern pLen hsLen hin hpLen h32 =>
      setPattern_spec m h hsLen hin hpLen h32 pattern,
    fun sPos sLen dPos hsLen hin hdPos => setString_iff hs h hsLen hin hdPos,
    maskString_iff h hs, fun addr haddr => ⟨fun hapart => ?_, fun hapart hapart' m => ?_⟩⟩
  · exact ⟨fun m => not_spec m h haddr hapart, fun shift =>
      ⟨shiftRight_iff h haddr hapart, shiftLeft_iff h haddr hapart⟩⟩
  · exact ⟨and_spec m h hs haddr hapart hapart', or_spec m h hs haddr hapart hapart'⟩

/-- A string and a mask in the same word, of which the mask starts first. -/
theorem bitString_agrees_word :
    (∀ m, ∃ m', maskString m ⟨8, 1, 8⟩ ⟨16, 1, 0⟩ = some m' ∧
        Masked ⟨8, 1, 8⟩ ⟨16, 1, 0⟩ m m') ∧
      ¬ ∀ m, Result m (shiftLeft m ⟨8, 1, 8⟩ 0 2) 8 2 (shiftedLeft m ⟨8, 1, 8⟩ 0) := by
  obtain ⟨-, -, -, hmask, hoperators⟩ := @bitString_agrees ⟨8, 1, 8⟩ ⟨16, 1, 0⟩
    ⟨by decide, by decide⟩ ⟨by decide, by decide⟩
  refine ⟨hmask.mpr (Or.inr (Or.inl (by decide))), fun hall => ?_⟩
  have hshift := (hoperators 2 (by decide)).1 (Or.inr (by decide))
  rcases ((hshift.2 0).2).mp hall with hle | ⟨hoffset, -⟩
  · exact absurd hle (by decide)
  · exact absurd hoffset (by decide)

/-- Eight bits at the offset 8 of a word.  Shifted by nothing they become the eight bits in
front of them. -/
theorem shiftLeft_forgets_offset :
    getField (fun a => if a = 1 then 0x00ab0000#32 else 0#32) ⟨8, 1, 8⟩ 0 8 =
        some 0xab000000#32 ∧
      (shiftLeft (fun a => if a = 1 then 0x00ab0000#32 else 0#32) ⟨8, 1, 8⟩ 0 2).bind
        (fun r => getField r.1 r.2 0 8) = some 0#32 := by
  decide

end BitString

end Hostboot.Prdf.InMemory
