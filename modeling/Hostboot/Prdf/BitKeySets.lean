import Hostboot.Prdf.BitKey
import Hostboot.Lib.Run
import Mathlib.Data.Nat.Nth

/-!
# Keys of bit positions as sets

What a program sees of its keys: the count of a key, its members in order, and the comparisons
of two.  All of it is about the sets of the keys (`Refines`), whatever their capacities are
and wherever their bits are.
-/

namespace Hostboot.Prdf.InMemory.BitKey

open Hostboot.Lib Hostboot.Lib.WordMem
open Function (update update_of_ne update_self)

variable {m m' : Mem} {k k' b : BitKey} {p a addr len lo hi : Nat}


/-! ## Counting -/

theorem isBitSet_eq (h : Ok m k) (hp : p < k.capacity) :
    k.string.isBitSet m p = some (decide (p ∈ members m k)) := by
  rw [BitString.isBitSet_spec m h.valid hp, base_string]
  refine congrArg some ?_
  rw [Bool.eq_iff_iff, decide_eq_true_iff, mem_members]
  exact (and_iff_right hp).symm

theorem countFrom_spec (h : Ok m k) {turns i : Nat} (hfit : i + turns ≤ k.capacity) :
    countFrom m k.string turns i (Nat.count (· ∈ members m k) i) =
      some (Nat.count (· ∈ members m k) (i + turns)) := by
  induction turns generalizing i with
  | zero => rfl
  | succ turns ih =>
    have hnext : (if decide (i ∈ members m k) then Nat.count (· ∈ members m k) i + 1
        else Nat.count (· ∈ members m k) i) = Nat.count (· ∈ members m k) (i + 1) := by
      rw [Nat.count_succ]
      by_cases hi : i ∈ members m k <;> simp [hi]
    rw [countFrom, isBitSet_eq h (by omega)]
    show countFrom m k.string turns (i + 1) (if decide (i ∈ members m k) then _ else _) = _
    rw [hnext, ih (by omega), Nat.add_right_comm, Nat.add_assoc]

theorem count_capacity (m : Mem) (k : BitKey) :
    Nat.count (· ∈ members m k) k.capacity = (members m k).card := by
  rw [Nat.count_eq_card_filter_range]
  congr 1
  ext p
  rw [Finset.mem_filter, Finset.mem_range]
  exact and_iff_right_of_imp fun hp => (mem_members.mp hp).1

theorem size_spec (h : Ok m k) : k.size m = some (members m k).card := by
  have hcount := countFrom_spec h (show 0 + k.capacity ≤ k.capacity by omega)
  rw [Nat.zero_add, count_capacity] at hcount
  exact hcount

/-- The loop of `getListValue` stops at the member that `n` others are in front of. -/
theorem findValue_spec (h : Ok m k) {n turns i : Nat} (hfit : i + turns = k.capacity)
    (hn : n < (members m k).card) (hi : Nat.count (· ∈ members m k) i ≤ n) :
    findValue m k.string (n + 1) turns i (Nat.count (· ∈ members m k) i) =
      some (Nat.nth (· ∈ members m k) n) := by
  induction turns generalizing i with
  | zero =>
    rw [← count_capacity, ← hfit] at hn
    exact absurd hi (Nat.not_le_of_lt hn)
  | succ turns ih =>
    rw [findValue, isBitSet_eq h (by omega)]
    by_cases hmem : i ∈ members m k
    · have hcount : Nat.count (· ∈ members m k) (i + 1) = Nat.count (· ∈ members m k) i + 1 := by
        rw [Nat.count_succ, if_pos hmem]
      rw [decide_eq_true hmem]
      show (if Nat.count (· ∈ members m k) i + 1 = n + 1 then _ else _) = _
      by_cases hhere : Nat.count (· ∈ members m k) i = n
      · rw [if_pos (by rw [hhere]), ← hhere, Nat.nth_count hmem]
      · rw [if_neg fun heq => hhere (Nat.succ.inj heq), ← hcount]
        exact ih (by omega) (by omega)
    · have hcount : Nat.count (· ∈ members m k) (i + 1) = Nat.count (· ∈ members m k) i := by
        rw [Nat.count_succ, if_neg hmem, Nat.add_zero]
      rw [decide_eq_false hmem]
      show (if Nat.count (· ∈ members m k) i = n + 1 then _ else _) = _
      rw [if_neg (by omega), ← hcount]
      exact ih (by omega) (by omega)

theorem card_le (h : Ok m k) : (members m k).card + 32 ≤ 2 ^ 32 := by
  have hcount := Nat.count_le (p := (· ∈ members m k)) (n := k.capacity)
  have hsmall := h.small
  rw [count_capacity] at hcount
  omega

theorem getListValue_spec (h : Ok m k) {n : Nat} (hn : n < (members m k).card) :
    k.getListValue m n = some (Nat.nth (· ∈ members m k) n) := by
  have hcard := card_le h
  have hmod : (n + 1) % 2 ^ 32 = n + 1 := Nat.mod_eq_of_lt (by omega)
  have hfind := findValue_spec h (Nat.zero_add k.capacity) hn (by rw [Nat.count_zero]; omega)
  unfold getListValue
  rw [hmod]
  rw [Nat.count_zero] at hfind
  exact hfind

theorem nth_mem {n : Nat} (hn : n < (members m k).card) :
    Nat.nth (· ∈ members m k) n ∈ members m k := by
  refine Nat.nth_mem n fun hfin => ?_
  have heq : hfin.toFinset = members m k := by
    ext p
    rw [Set.Finite.mem_toFinset]
    rfl
  rwa [heq]

/-! ## Removing -/

theorem removeNth_spec (h : Ok m k) (n : Nat) :
    ∃ m', k.removeNth m n = some m' ∧
      Becomes m m' k k (if n < (members m k).card then
        (members m k).erase (Nat.nth (· ∈ members m k) n) else members m k) := by
  unfold removeNth
  simp only [Option.bind_eq_bind]
  rw [size_spec h, Option.bind_some]
  by_cases hn : n < (members m k).card
  · obtain ⟨m', hm', hok, hmembers, hframe⟩ :=
      string_clearBit_spec h (mem_members.mp (nth_mem hn)).1
    rw [if_pos hn, if_pos hn, getListValue_spec h hn, Option.bind_some, hm']
    exact ⟨m', rfl, hok, hmembers, fun a _ => hframe a⟩
  · rw [if_neg hn, if_neg hn]
    exact ⟨m, rfl, h, rfl, fun _ _ _ => rfl⟩

theorem clearLast_spec (h : Ok m k) {i : Nat} (hi : i ≤ k.capacity)
    (hall : ∀ p ∈ members m k, p < i) :
    ∃ m', clearLast m k.string i = some m' ∧
      Becomes m m' k k ((members m k).erase ((members m k).sup id)) := by
  induction i with
  | zero =>
    have hempty : members m k = ∅ :=
      Finset.eq_empty_of_forall_notMem fun p hp => Nat.not_lt_zero p (hall p hp)
    refine ⟨m, rfl, h, ?_, fun _ _ _ => rfl⟩
    rw [hempty]
    rfl
  | succ i ih =>
    rw [clearLast, isBitSet_eq h hi]
    by_cases hmem : i ∈ members m k
    · have hsup : (members m k).sup id = i :=
        le_antisymm (Finset.sup_le fun p hp => Nat.le_of_lt_succ (hall p hp))
          (Finset.le_sup (f := id) hmem)
      obtain ⟨m', hm', hok, hmembers, hframe⟩ := string_clearBit_spec h hi
      rw [decide_eq_true hmem, hsup]
      exact ⟨m', hm', hok, hmembers, fun a _ => hframe a⟩
    · rw [decide_eq_false hmem]
      refine ih (Nat.le_of_succ_le hi) fun p hp => ?_
      exact lt_of_le_of_ne (Nat.le_of_lt_succ (hall p hp)) fun heq => hmem (heq ▸ hp)

theorem removeLast_spec (h : Ok m k) :
    ∃ m', k.removeLast m = some m' ∧
      Becomes m m' k k ((members m k).erase ((members m k).sup id)) :=
  clearLast_spec h (Nat.le_refl _) fun _ hp => (mem_members.mp hp).1

theorem removeBits_spec (h : Ok m k) (hb : Ok m b) (hdisjoint : k = b ∨ Disjoint k b) :
    ∃ m', k.removeBits m b = some m' ∧ Becomes m m' k k (members m k \ members m b) := by
  have hdiv := h.div_mul
  have hdivb := hb.div_mul
  have hahead : BitString.MaskAhead k.string b.string := by
    unfold BitString.MaskAhead
    rw [base_string, base_string]
    rcases hdisjoint with rfl | hdisjoint
    · exact Or.inl (Nat.le_refl _)
    · by_contra hnot
      have hmin : min k.string.bitLen b.string.bitLen ≤ b.capacity := Nat.min_le_right _ _
      have hmin' : min k.string.bitLen b.string.bitLen ≤ k.capacity := Nat.min_le_left _ _
      -- the first word of the key would be one of the other
      exact hdisjoint k.dataPtr ⟨owns_data (Nat.le_refl _) (by omega),
        owns_data (by omega) (by omega)⟩
  obtain ⟨m', hm', hmasked⟩ := BitString.maskString_masks h.valid hb.valid hahead m
  have hmin : min k.string.bitLen b.string.bitLen ≤ k.capacity := Nat.min_le_left _ _
  obtain ⟨hok, hframe⟩ := h.write hmasked (Nat.le_refl _)
    (by rw [base_string]; exact Nat.add_le_add_left hmin _)
  refine ⟨m', hm', hok, ?_, fun a _ => hframe a⟩
  ext p
  rw [Finset.mem_sdiff, mem_members, mem_members, mem_members]
  have hbit := hmasked (32 * k.dataPtr + p)
  rw [base_string, base_string] at hbit
  have hlen : min k.string.bitLen b.string.bitLen = min k.capacity b.capacity := rfl
  rw [hlen] at hbit
  dsimp only at hbit
  rw [Nat.add_sub_cancel_left] at hbit
  by_cases hin : p < min k.capacity b.capacity
  · rw [hbit, if_pos (by omega)]
    have hpk : p < k.capacity := by omega
    have hpb : p < b.capacity := by omega
    simp [hpk, hpb]
  · rw [hbit, if_neg (by omega)]
    constructor
    · rintro ⟨hp, hset⟩
      exact ⟨⟨hp, hset⟩, fun hboth => hin (by omega)⟩
    · exact fun hboth => hboth.1

/-! ## Comparing -/

theorem allWords_iff {test : Nat → Bool} {i n : Nat} :
    allWords test i n = true ↔ ∀ j, i ≤ j → j < i + n → test j = true := by
  induction n generalizing i with
  | zero => exact iff_of_true rfl fun j hlo hhi => by omega
  | succ n ih =>
    rw [allWords, Bool.and_eq_true, ih]
    constructor
    · rintro ⟨hfirst, hrest⟩ j hlo hhi
      rcases Nat.eq_or_lt_of_le hlo with rfl | hlt
      · exact hfirst
      · exact hrest j hlt (by omega)
    · intro hall
      exact ⟨hall i (Nat.le_refl i) (by omega), fun j hlo hhi => hall j (by omega) (by omega)⟩

/-- A word of the bit string, and zeros behind its end. -/
def word (m : Mem) (k : BitKey) (j : Nat) : CPU_WORD :=
  if j < getWordSize k.capacity then m (k.dataPtr + j) else 0#32

theorem word_of_lt {j : Nat} (hj : j < getWordSize k.capacity) :
    word m k j = m (k.dataPtr + j) := if_pos hj

theorem word_of_le {j : Nat} (hj : getWordSize k.capacity ≤ j) : word m k j = 0#32 :=
  if_neg (Nat.not_lt_of_le hj)

theorem mem_iff_word (h : Ok m k) :
    p ∈ members m k ↔ (word m k (p / 32)).getMsbD (p % 32) = true := by
  have hdiv := h.div_mul
  have hsize := getWordSize_eq k.capacity
  rw [mem_members]
  by_cases hp : p < k.capacity
  · have hsplit : 32 * k.dataPtr + p = 32 * (k.dataPtr + p / 32) + p % 32 := by omega
    rw [word_of_lt (by omega), hsplit, bit_word m _ (Nat.mod_lt p (by decide))]
    exact and_iff_right hp
  · rw [word_of_le (by omega), BitVec.getMsbD_zero]
    exact iff_of_false (fun hboth => hp hboth.1) Bool.false_ne_true

theorem forall_positions {f g : Nat → CPU_WORD} :
    (∀ p, (f (p / 32)).getMsbD (p % 32) = (g (p / 32)).getMsbD (p % 32)) ↔ ∀ j, f j = g j := by
  refine ⟨fun hall j => BitVec.eq_of_getMsbD_eq fun i hi => ?_, fun hall p => by rw [hall]⟩
  have hdiv : (32 * j + i) / 32 = j := by omega
  have hmod : (32 * j + i) % 32 = i := by omega
  have hji := hall (32 * j + i)
  rwa [hdiv, hmod] at hji

theorem members_eq_iff (h : Ok m k) (hb : Ok m b) :
    members m k = members m b ↔ ∀ j, word m k j = word m b j := by
  rw [Finset.ext_iff, ← forall_positions]
  refine forall_congr' fun p => ?_
  rw [mem_iff_word h, mem_iff_word hb]
  exact Bool.eq_iff_iff.symm

theorem members_subset_iff (h : Ok m k) (hb : Ok m b) :
    members m b ⊆ members m k ↔ ∀ j, word m k j &&& word m b j = word m b j := by
  rw [← forall_positions (f := fun j => word m k j &&& word m b j)]
  refine forall_congr' fun p => ?_
  rw [mem_iff_word h, mem_iff_word hb, BitVec.getMsbD_and, Bool.and_eq_right_iff_imp]

theorem allWords_front {test : Nat → Bool} {n : Nat} :
    allWords test 0 n = true ↔ ∀ j, j < n → test j = true := by
  rw [allWords_iff]
  exact ⟨fun hall j hj => hall j (Nat.zero_le j) (by omega), fun hall j _ hj => hall j (by omega)⟩

theorem allWords_behind {n n' : Nat} {f : Nat → CPU_WORD} (hle : n ≤ n') :
    allWords (fun i => f i == 0#32) n (n' - n) = true ↔ ∀ j, n ≤ j → j < n' → f j = 0#32 := by
  rw [allWords_iff]
  exact ⟨fun hall j hlo hhi => eq_of_beq (hall j hlo (by omega)),
    fun hall j hlo hhi => beq_iff_eq.mpr (hall j hlo (by omega))⟩

/-- The two loops of a comparison: over the words that both keys have, and over
those that only `b` has. -/
theorem words_iff (test : CPU_WORD → CPU_WORD → Prop) {n n' : Nat}
    (hn : getWordSize k.capacity = n) (hn' : getWordSize b.capacity = n')
    (hzero : ∀ w, test 0#32 w ↔ w = 0#32) (hbehind : ∀ j, n' ≤ j → test (word m k j) 0#32) :
    ((∀ j, j < min n n' → test (m (k.dataPtr + j)) (m (b.dataPtr + j))) ∧
      ∀ j, n ≤ j → j < n' → m (b.dataPtr + j) = 0#32) ↔
        ∀ j, test (word m k j) (word m b j) := by
  constructor
  · rintro ⟨hboth, hrest⟩ j
    by_cases hj' : j < n'
    · rw [word_of_lt (k := b) (by omega)]
      by_cases hj : j < n
      · rw [word_of_lt (by omega)]
        exact hboth j (by omega)
      · rw [word_of_le (by omega), hzero]
        exact hrest j (by omega) hj'
    · rw [word_of_le (k := b) (by omega)]
      exact hbehind j (by omega)
  · intro hall
    refine ⟨fun j hj => ?_, fun j hlo hhi => ?_⟩
    · have hj' := hall j
      rwa [word_of_lt (by omega), word_of_lt (by omega)] at hj'
    · have hj' := hall j
      rwa [word_of_le (by omega), word_of_lt (by omega), hzero] at hj'

theorem words_eq_iff {n n' : Nat} (hn : getWordSize k.capacity = n)
    (hn' : getWordSize b.capacity = n') (hle : n ≤ n') :
    ((∀ j, j < n → (m (k.dataPtr + j) == m (b.dataPtr + j)) = true) ∧
      ∀ j, n ≤ j → j < n' → m (b.dataPtr + j) = 0#32) ↔ ∀ j, word m k j = word m b j := by
  have hiff := words_iff (m := m) (· = ·) hn hn' (fun w => eq_comm) fun j hj =>
    word_of_le (by omega)
  rw [Nat.min_eq_left hle] at hiff
  simpa only [beq_iff_eq] using hiff

theorem eq_iff_words : eq m k b = true ↔ ∀ j, word m k j = word m b j := by
  unfold eq
  dsimp only
  generalize hn : getWordSize k.capacity = n
  generalize hn' : getWordSize b.capacity = n'
  rcases Nat.lt_trichotomy n n' with hlt | heq | hgt
  · rw [if_neg (Nat.not_lt_of_lt hlt), ← words_eq_iff hn hn' hlt.le, ← allWords_front,
      ← allWords_behind hlt.le, decide_eq_true hlt, Bool.and_true]
    cases allWords (fun i => m (k.dataPtr + i) == m (b.dataPtr + i)) 0 n <;>
      simp [Nat.not_lt_of_lt hlt]
  · subst heq
    rw [← words_eq_iff hn hn' (Nat.le_refl n), ← allWords_front, ← allWords_behind (Nat.le_refl n),
      Nat.sub_self]
    simp [allWords]
  · have hswap : (fun i => m (k.dataPtr + i) == m (b.dataPtr + i)) =
        fun i => m (b.dataPtr + i) == m (k.dataPtr + i) := by
      funext i
      exact Bool.beq_comm
    have hsymm : (∀ j, word m k j = word m b j) ↔ ∀ j, word m b j = word m k j :=
      forall_congr' fun j => eq_comm
    rw [if_pos hgt, hsymm, ← words_eq_iff hn' hn hgt.le, ← allWords_front, ← allWords_behind hgt.le,
      hswap, decide_eq_false (Nat.not_lt_of_lt hgt), Bool.and_false, decide_eq_true hgt, Bool.and_true]
    cases allWords (fun i => m (b.dataPtr + i) == m (k.dataPtr + i)) 0 n' <;> simp

theorem eq_iff (h : Ok m k) (hb : Ok m b) : eq m k b = true ↔ members m k = members m b := by
  rw [members_eq_iff h hb]
  exact eq_iff_words

theorem eq_zero_iff (h : Ok m k) : eq m k ⟨0, 0, 0⟩ = true ↔ members m k = ∅ := by
  rw [eq_iff_words, Finset.eq_empty_iff_forall_notMem, ← forall_positions]
  refine forall_congr' fun p => ?_
  have hzero : word m ⟨0, 0, 0⟩ (p / 32) = 0#32 := word_of_le (Nat.zero_le _)
  rw [mem_iff_word h, hzero, BitVec.getMsbD_zero]
  exact Bool.eq_false_iff

theorem words_and_iff {n n' : Nat} (hn : getWordSize k.capacity = n)
    (hn' : getWordSize b.capacity = n') :
    ((∀ j, j < min n n' → ((m (k.dataPtr + j) &&& m (b.dataPtr + j)) == m (b.dataPtr + j)) =
      true) ∧ ∀ j, n ≤ j → j < n' → m (b.dataPtr + j) = 0#32) ↔
        ∀ j, word m k j &&& word m b j = word m b j := by
  have hiff := words_iff (m := m) (fun x y => x &&& y = y) hn hn'
    (fun w => by rw [BitVec.zero_and, eq_comm]) fun j _ => BitVec.and_zero
  simpa only [beq_iff_eq] using hiff

theorem isSubset_iff (h : Ok m k) (hb : Ok m b) :
    isSubset m k b = true ↔
      (members m b = ∅ → members m k = ∅) ∧ members m b ⊆ members m k := by
  have hguard : (if eq m b ⟨0, 0, 0⟩ = true then eq m k b else true) = true ↔
      (members m b = ∅ → members m k = ∅) := by
    by_cases hempty : members m b = ∅
    · rw [if_pos ((eq_zero_iff hb).mpr hempty), eq_iff h hb, hempty]
      exact ⟨fun hk _ => hk, fun himp => himp rfl⟩
    · rw [if_neg fun heq => hempty ((eq_zero_iff hb).mp heq)]
      exact iff_of_true rfl fun heq => absurd heq hempty
  rw [members_subset_iff h hb, ← hguard]
  unfold isSubset
  dsimp only
  generalize (if eq m b ⟨0, 0, 0⟩ = true then eq m k b else true) = guard
  generalize hn : getWordSize k.capacity = n
  generalize hn' : getWordSize b.capacity = n'
  have hsmall : (if n' < n then n' else n) = min n n' := by
    split <;> omega
  rw [← words_and_iff hn hn', hsmall]
  by_cases hlt : n < n'
  · rw [Nat.min_eq_left hlt.le, ← allWords_front, ← allWords_behind hlt.le, decide_eq_true hlt,
      Bool.and_true]
    cases guard <;>
      cases allWords (fun i => (m (k.dataPtr + i) &&& m (b.dataPtr + i)) ==
        m (b.dataPtr + i)) 0 n <;> simp
  · rw [← allWords_front, decide_eq_false hlt, Bool.and_false, if_neg Bool.false_ne_true,
      Bool.and_eq_true]
    refine and_congr_right fun _ => (and_iff_left ?_).symm
    intro j hlo hhi
    omega

/-! ## Objects -/

theorem new_spec {storage : Nat} (hstorage : storage ≠ 0) :
    Becomes m (new m storage).1 (new m storage).2 (new m storage).2 ∅ := by
  refine ⟨⟨⟨0, rfl⟩, Nat.le_of_ble_eq_true rfl, hstorage,
    fun hnot => absurd (Nat.zero_le 64) hnot, fun _ p _ hp => ?_⟩, rfl, fun a _ ha => ?_⟩
  · have hzero : (new m storage).1 ((32 * storage + p) / 32) = 0#32 := by
      show ((m.put storage 0#32).put (storage + 1) 0#32) ((32 * storage + p) / 32) = 0#32
      by_cases hfirst : (32 * storage + p) / 32 = storage
      · rw [hfirst, put_of_ne _ _ (by omega), put_same]
      · have hsecond : (32 * storage + p) / 32 = storage + 1 := by omega
        rw [hsecond, put_same]
    show ((new m storage).1 ((32 * storage + p) / 32)).getMsbD ((32 * storage + p) % 32) = false
    rw [hzero, BitVec.getMsbD_zero]
  · have hout : ¬ (storage ≤ a ∧ a < storage + 2) := fun hin => ha (Or.inl hin)
    show ((m.put storage 0#32).put (storage + 1) 0#32) a = m a
    rw [put_of_ne _ _ (by omega), put_of_ne _ _ (by omega)]

/-- The keys of a program: which are constructed, and the object of each. -/
structure Keys where
  mem : Mem
  live : Finset Nat
  key : Nat → BitKey

/-- No constructed key has one of `n` words. -/
def Keys.Fresh (w : Keys) (addr n : Nat) : Prop := ∀ j ∈ w.live, Unowned (w.key j) addr n

/-- What a program does with its keys.  `storage` is where a new object is, and `addr` is what
`new` gives, if it is called. -/
inductive Op
  | new (i storage : Nat)
  | setBit (i i_bitValue addr : Nat)
  | removeNth (i n : Nat)
  | removeLast (i : Nat)
  | removeBits (i j : Nat)
  | copy (i j storage addr : Nat)
  | assign (i j addr : Nat)

/-- An object after a step. -/
def Keys.put (w : Keys) (i : Nat) (m : Mem) (k : BitKey) : Keys :=
  ⟨m, insert i w.live, update w.key i k⟩

/-- An operation on the objects. -/
def Op.run (w : Keys) : Op → Option Keys
  | .new i storage => some (w.put i (BitKey.new w.mem storage).1 (BitKey.new w.mem storage).2)
  | .setBit i i_bitValue addr =>
    ((w.key i).setBit w.mem i_bitValue addr).map fun (m, k) => w.put i m k
  | .removeNth i n => ((w.key i).removeNth w.mem n).map fun m => w.put i m (w.key i)
  | .removeLast i => ((w.key i).removeLast w.mem).map fun m => w.put i m (w.key i)
  | .removeBits i j => ((w.key i).removeBits w.mem (w.key j)).map fun m => w.put i m (w.key i)
  | .copy i j storage addr =>
    some (w.put i (BitKey.copy w.mem (w.key j) storage addr).1
      (BitKey.copy w.mem (w.key j) storage addr).2)
  | .assign i j addr => ((w.key i).assign w.mem (w.key j) addr).map fun (m, k) => w.put i m k

/-- An operation on the sets. -/
noncomputable def Op.apply (sets : Nat → Finset Nat) : Op → Nat → Finset Nat
  | .new i _ => update sets i ∅
  | .setBit i i_bitValue _ => update sets i (insert i_bitValue (sets i))
  | .removeNth i n => update sets i
      (if n < (sets i).card then (sets i).erase (Nat.nth (· ∈ sets i) n) else sets i)
  | .removeLast i => update sets i ((sets i).erase ((sets i).sup id))
  | .removeBits i j => update sets i (sets i \ sets j)
  | .copy i j _ _ => update sets i (sets j)
  | .assign i j _ => update sets i (sets j)

/-- What a program promises: it names constructed keys, and no word that it is given belongs
to one. -/
def Op.Called (w : Keys) : Op → Prop
  | .new i storage => i ∉ w.live ∧ storage ≠ 0 ∧ w.Fresh storage 2
  | .setBit i i_bitValue addr => i ∈ w.live ∧ i_bitValue < 2 ^ 32 ∧ addr ≠ 0 ∧
      w.Fresh addr (getWordSize (i_bitValue + 1))
  | .removeNth i _ => i ∈ w.live
  | .removeLast i => i ∈ w.live
  | .removeBits i j => i ∈ w.live ∧ j ∈ w.live
  | .copy i j storage addr => i ∉ w.live ∧ j ∈ w.live ∧ storage ≠ 0 ∧ w.Fresh storage 2 ∧
      addr ≠ 0 ∧ w.Fresh addr ((w.key j).capacity / 32)
  | .assign i j addr => i ∈ w.live ∧ j ∈ w.live ∧ i ≠ j ∧ addr ≠ 0 ∧
      w.Fresh addr (getWordSize (w.key j).capacity)

/-- The positions that `setBit` takes: those below the last CPU word of a string of 2^32 bits,
and not those for which it has to copy more than 2^31 bits to a higher address. -/
def Op.Safe (w : Keys) : Op → Prop
  | .setBit i i_bitValue addr => i_bitValue + 32 < 2 ^ 32 ∧
      (i_bitValue < (w.key i).capacity ∨ GrowthCopies w.mem (w.key i) addr)
  | _ => True

/-- Every key has its own words, and in them its set. -/
structure Refines (w : Keys) (sets : Nat → Finset Nat) : Prop where
  ok : ∀ i ∈ w.live, Ok w.mem (w.key i)
  members_eq : ∀ i ∈ w.live, members w.mem (w.key i) = sets i
  disjoint : ∀ i ∈ w.live, ∀ j ∈ w.live, i ≠ j → Disjoint (w.key i) (w.key j)

variable {w w' : Keys} {sets : Nat → Finset Nat} {i j : Nat} {s : Finset Nat} {op : Op}

theorem put_key_self : (w.put i m k).key i = k := by
  unfold Keys.put
  exact update_self i k w.key

theorem put_key_of_ne (hne : j ≠ i) : (w.put i m k).key j = w.key j := by
  unfold Keys.put
  exact update_of_ne hne k w.key

theorem Disjoint.symm (h : Disjoint k b) : Disjoint b k := fun a hboth => h a hboth.symm

/-- A step writes the words of one object, none of which another key has. -/
theorem Refines.put (h : Refines w sets) (hbecomes : Becomes w.mem m' k k' s)
    (hother : ∀ j ∈ w.live, j ≠ i → Disjoint (w.key j) k ∧ Disjoint (w.key j) k') :
    Refines (w.put i m' k') (update sets i s) := by
  have hkept : ∀ j ∈ w.live, j ≠ i →
      Ok m' (w.key j) ∧ members m' (w.key j) = members w.mem (w.key j) := by
    intro j hj hne
    obtain ⟨hold, hnew⟩ := hother j hj hne
    exact (h.ok j hj).congr fun a ha =>
      hbecomes.frame a (fun hk => hold a ⟨ha, hk⟩) fun hk => hnew a ⟨ha, hk⟩
  have hlive : ∀ j ∈ (w.put i m' k').live, j ≠ i → j ∈ w.live := fun j hj hne =>
    (Finset.mem_insert.mp hj).resolve_left hne
  refine ⟨fun j hj => ?_, fun j hj => ?_, fun j hj j' hj' hjj' => ?_⟩
  · by_cases hij : j = i
    · subst hij
      rw [put_key_self]
      exact hbecomes.ok
    · rw [put_key_of_ne hij]
      exact (hkept j (hlive j hj hij) hij).1
  · by_cases hij : j = i
    · subst hij
      rw [put_key_self, update_self]
      exact hbecomes.members_eq
    · rw [put_key_of_ne hij, update_of_ne hij, ← h.members_eq j (hlive j hj hij)]
      exact (hkept j (hlive j hj hij) hij).2
  · by_cases hij : j = i
    · subst hij
      rw [put_key_self, put_key_of_ne hjj'.symm]
      exact (hother j' (hlive j' hj' hjj'.symm) hjj'.symm).2.symm
    · rw [put_key_of_ne hij]
      by_cases hij' : j' = i
      · subst hij'
        rw [put_key_self]
        exact (hother j (hlive j hj hij) hij).2
      · rw [put_key_of_ne hij']
        exact h.disjoint j (hlive j hj hij) j' (hlive j' hj' hij') hjj'

theorem Refines.put_live (h : Refines w sets) (hi : i ∈ w.live) {n : Nat}
    (hbecomes : Becomes w.mem m' (w.key i) k' s) (hgrows : Grows (w.key i) k' addr n)
    (hfresh : w.Fresh addr n) :
    Refines (w.put i m' k') (update sets i s) := by
  refine h.put hbecomes fun j hj hne => ⟨h.disjoint j hj i hi hne, ?_⟩
  rintro a ⟨ha, hk'⟩
  rcases hgrows.2 a hk' with hk | ⟨hlo, hhi⟩
  · exact h.disjoint j hj i hi hne a ⟨ha, hk⟩
  · exact hfresh j hj a hlo hhi ha

theorem Refines.put_same (h : Refines w sets) (hi : i ∈ w.live)
    (hbecomes : Becomes w.mem m' (w.key i) (w.key i) s) :
    Refines (w.put i m' (w.key i)) (update sets i s) :=
  h.put_live hi hbecomes (Grows.refl _ 0 0) fun _ _ _ _ hlt => absurd hlt (Nat.not_lt_zero _)

theorem Refines.step (h : Refines w sets) (hcalled : op.Called w) (hsafe : op.Safe w) :
    ∃ w', op.run w = some w' ∧ Refines w' (op.apply sets) := by
  cases op with
  | new i storage =>
    obtain ⟨hi, hstorage, hfresh⟩ := hcalled
    refine ⟨_, rfl, h.put (new_spec hstorage) fun j hj hne => ?_⟩
    have hdisjoint : Disjoint (w.key j) (BitKey.new w.mem storage).2 := by
      rintro a ⟨ha, (⟨hlo, hhi⟩ | ⟨hnot, -⟩)⟩
      · exact hfresh j hj a hlo hhi ha
      · exact hnot (Nat.zero_le 64)
    exact ⟨hdisjoint, hdisjoint⟩
  | setBit i i_bitValue addr =>
    obtain ⟨hi, -, haddr, hfresh⟩ := hcalled
    obtain ⟨m', k', hrun, hbecomes, hgrows⟩ :=
      setBit_spec (h.ok i hi) hsafe.1 haddr (hfresh i hi) hsafe.2
    rw [h.members_eq i hi] at hbecomes
    refine ⟨w.put i m' k', ?_, h.put_live hi hbecomes hgrows hfresh⟩
    rw [Op.run, hrun]
    rfl
  | removeNth i n =>
    obtain ⟨m', hrun, hbecomes⟩ := removeNth_spec (h.ok i hcalled) n
    rw [h.members_eq i hcalled] at hbecomes
    refine ⟨w.put i m' (w.key i), ?_, h.put_same hcalled hbecomes⟩
    rw [Op.run, hrun]
    rfl
  | removeLast i =>
    obtain ⟨m', hrun, hbecomes⟩ := removeLast_spec (h.ok i hcalled)
    rw [h.members_eq i hcalled] at hbecomes
    refine ⟨w.put i m' (w.key i), ?_, h.put_same hcalled hbecomes⟩
    rw [Op.run, hrun]
    rfl
  | removeBits i j =>
    obtain ⟨hi, hj⟩ := hcalled
    have hboth : w.key i = w.key j ∨ Disjoint (w.key i) (w.key j) := by
      by_cases hij : i = j
      · exact Or.inl (congrArg w.key hij)
      · exact Or.inr (h.disjoint i hi j hj hij)
    obtain ⟨m', hrun, hbecomes⟩ := removeBits_spec (h.ok i hi) (h.ok j hj) hboth
    rw [h.members_eq i hi, h.members_eq j hj] at hbecomes
    refine ⟨w.put i m' (w.key i), ?_, h.put_same hi hbecomes⟩
    rw [Op.run, hrun]
    rfl
  | copy i j storage addr =>
    obtain ⟨hi, hj, hstorage, hfresh, haddr, hfresh'⟩ := hcalled
    obtain ⟨m', k', hrun, hbecomes, -, howns⟩ :=
      copy_spec (h.ok j hj) hstorage haddr (hfresh j hj)
    rw [h.members_eq j hj] at hbecomes
    refine ⟨w.put i m' k', ?_, h.put hbecomes fun j' hj' hne => ?_⟩
    · rw [Op.run, hrun]
    · have hdisjoint : Disjoint (w.key j') k' := by
        rintro a ⟨ha, hk'⟩
        rcases howns a hk' with ⟨hlo, hhi⟩ | ⟨hlo, hhi⟩
        · exact hfresh j' hj' a hlo hhi ha
        · exact hfresh' j' hj' a hlo hhi ha
      exact ⟨hdisjoint, hdisjoint⟩
  | assign i j addr =>
    obtain ⟨hi, hj, hij, haddr, hfresh⟩ := hcalled
    obtain ⟨m', k', hrun, hbecomes, hgrows⟩ := assign_spec (h.ok i hi) (h.ok j hj)
      (h.disjoint i hi j hj hij) haddr (hfresh i hi) (hfresh j hj)
    rw [h.members_eq j hj] at hbecomes
    refine ⟨w.put i m' k', ?_, h.put_live hi hbecomes hgrows hfresh⟩
    rw [Op.run, hrun]
    rfl

/-! ## Runs -/

theorem fresh_above {n : Nat}
    (h : ∀ j ∈ w.live, (w.key j).capacity ≤ 64 ∧ (w.key j).storage + 2 ≤ addr) :
    w.Fresh addr n := by
  rintro j hj a hlo - (⟨-, hhi⟩ | ⟨hnot, -⟩)
  · have hbelow := (h j hj).2
    omega
  · exact hnot (h j hj).1

/-- A step of a program, and of the sets beside it. -/
def Step (w : Keys × (Nat → Finset Nat)) (op : Op) (w' : Keys × (Nat → Finset Nat)) : Prop :=
  op.Called w.1 ∧ op.run w.1 = some w'.1 ∧ w'.2 = op.apply w.2

theorem Step.of_run {w : Keys × (Nat → Finset Nat)} (hcalled : op.Called w.1)
    (hrun : op.run w.1 = some w') : Step w op (w', op.apply w.2) := ⟨hcalled, hrun, rfl⟩

/-- A step that only sets positions that `setBit` takes. -/
def SafeStep (w : Keys × (Nat → Finset Nat)) (op : Op) (w' : Keys × (Nat → Finset Nat)) : Prop :=
  Step w op w' ∧ op.Safe w.1

/-- A program that has no key yet. -/
def Keys.init (m : Mem) : Keys × (Nat → Finset Nat) := (⟨m, ∅, fun _ => ⟨0, 0, 0⟩⟩, fun _ => ∅)

theorem refines_of_run {ops : List Op} {w : Keys × (Nat → Finset Nat)}
    (hrun : Run SafeStep (Keys.init m) ops w) : Refines w.1 w.2 := by
  refine @Run.invariant _ _ _ _ (fun w => Refines w.1 w.2) ?_ ?_ _ _ hrun
  · exact ⟨fun i hi => absurd hi (Finset.notMem_empty i),
      fun i hi => absurd hi (Finset.notMem_empty i),
      fun i hi => absurd hi (Finset.notMem_empty i)⟩
  · rintro w op w' h ⟨⟨hcalled, hw', hsets⟩, hsafe⟩
    obtain ⟨w'', hw'', hrefines⟩ := h.step hcalled hsafe
    obtain rfl := Option.some.inj (hw''.symm.trans hw')
    rw [hsets]
    exact hrefines

theorem assert_none {p : Prop} [Decidable p] {α : Type} {f : Unit → Option α}
    (h : p → f () = none) : (PRDF_ASSERT p).bind f = none := by
  unfold PRDF_ASSERT
  by_cases hp : p
  · rw [if_pos hp]
    exact h hp
  · rw [if_neg hp]
    rfl

theorem string_setBit_none {bs : BitString} (h : bs.bitLen ≤ p) : bs.setBit m p = none := by
  have hposition : bs.getRelativePosition p = none :=
    assert_none fun _ => assert_none fun hlt => absurd hlt (Nat.not_lt_of_le h)
  unfold BitString.setBit BitString.setFieldJustify BitString.setField
  simp only [Option.bind_eq_bind]
  rw [hposition]
  exact assert_none fun _ => assert_none fun _ => assert_none fun _ => assert_none fun _ => rfl

theorem setBit_none (h : Ok m k) (hp : 2 ^ 32 ≤ p + 32) (hp' : p < 2 ^ 32) :
    setBit m k p addr = none := by
  have hsmall := h.small
  have hgrow : ∃ k', reAllocate m k ((p + 1) % 2 ^ 32) addr = some (m, k') ∧ k'.capacity ≤ p := by
    unfold reAllocate
    by_cases hlast : p + 1 = 2 ^ 32
    · have hlen : (p + 1) % 2 ^ 32 = 0 := by rw [hlast, Nat.mod_self]
      rw [hlen, if_neg (Nat.not_lt_zero _)]
      exact ⟨k, rfl, by omega⟩
    · have hlen : (p + 1) % 2 ^ 32 = p + 1 := Nat.mod_eq_of_lt (by omega)
      have hsize : getWordSize (p + 1) = 2 ^ 27 := by
        rw [getWordSize_eq]
        omega
      rw [hlen, if_pos (by omega), hsize]
      exact ⟨{ k with capacity := 0 }, rfl, Nat.zero_le p⟩
  obtain ⟨k', hk', hcap⟩ := hgrow
  unfold setBit
  simp only [Option.bind_eq_bind]
  rw [if_pos (show p ≥ k.capacity by omega), hk', Option.bind_some, string_setBit_none hcap]
  rfl

/-- The keys of a program that only sets positions which `setBit` takes are sets.  No other
operation fails, and a program that sets one of the last 32 positions ends there. -/
theorem agrees_with_sets {ops : List Op} {w : Keys × (Nat → Finset Nat)}
    (hrun : Run SafeStep (Keys.init m) ops w) :
    (∀ i ∈ w.1.live, (w.1.key i).size w.1.mem = some (w.2 i).card ∧
      (∀ n, n < (w.2 i).card →
        (w.1.key i).getListValue w.1.mem n = some (Nat.nth (· ∈ w.2 i) n)) ∧
      ∀ j ∈ w.1.live, (eq w.1.mem (w.1.key i) (w.1.key j) = true ↔ w.2 i = w.2 j) ∧
        (isSubset w.1.mem (w.1.key i) (w.1.key j) = true ↔
          (w.2 j = ∅ → w.2 i = ∅) ∧ w.2 j ⊆ w.2 i)) ∧
    (∀ op : Op, op.Called w.1 → op.Safe w.1 → ∃ w', SafeStep w op w') ∧
    ∀ i ∈ w.1.live, ∀ p addr, 2 ^ 32 ≤ p + 32 → p < 2 ^ 32 →
      setBit w.1.mem (w.1.key i) p addr = none := by
  have h := refines_of_run hrun
  refine ⟨fun i hi => ?_, fun op hcalled hsafe => ?_, fun i hi p addr hp hp' =>
    setBit_none (h.ok i hi) hp hp'⟩
  · have hok := h.ok i hi
    rw [← h.members_eq i hi]
    refine ⟨size_spec hok, fun n hn => getListValue_spec hok hn, fun j hj => ?_⟩
    rw [← h.members_eq j hj]
    exact ⟨eq_iff hok (h.ok j hj), isSubset_iff hok (h.ok j hj)⟩
  · obtain ⟨w', hw', -⟩ := h.step hcalled hsafe
    exact ⟨(w', op.apply w.2), ⟨hcalled, hw', rfl⟩, hsafe⟩

/-- A key with two positions, the second of which moves it to a buffer, and an empty one. -/
theorem agrees_with_sets_two : ∃ w : Keys × (Nat → Finset Nat),
    Run SafeStep (Keys.init fun _ => 0#32)
        [.new 0 10, .new 1 12, .setBit 0 5 20, .setBit 0 70 30] w ∧
      (w.1.key 0).size w.1.mem = some 2 ∧ (w.1.key 0).getListValue w.1.mem 1 = some 70 ∧
      isSubset w.1.mem (w.1.key 0) (w.1.key 1) = false := by
  have hrun : ∃ w : Keys × (Nat → Finset Nat),
      Run SafeStep (Keys.init fun _ => 0#32)
          [.new 0 10, .new 1 12, .setBit 0 5 20, .setBit 0 70 30] w ∧
        w.1.live = {0, 1} ∧ w.2 0 = {70, 5} ∧ w.2 1 = ∅ := by
    refine ⟨_, .snoc (.snoc (.snoc (.snoc .nil ⟨@Step.of_run _ (.new 0 10) _ ?new rfl, trivial⟩)
      ⟨@Step.of_run _ (.new 1 12) _ ?new' rfl, trivial⟩)
      ⟨@Step.of_run _ (.setBit 0 5 20) _ ?set rfl, ?safe⟩)
      ⟨@Step.of_run _ (.setBit 0 70 30) _ ?set' rfl, ?safe'⟩, ?live, ?first, ?second⟩
    case new => exact ⟨by decide, by decide, fresh_above (by decide)⟩
    case new' => exact ⟨by decide, by decide, fresh_above (by decide)⟩
    case set => exact ⟨by decide, by decide, by decide, fresh_above (by decide)⟩
    case safe => exact ⟨by decide, Or.inr (Or.inr (by decide))⟩
    case set' => exact ⟨by decide, by decide, by decide, fresh_above (by decide)⟩
    case safe' => exact ⟨by decide, Or.inr (Or.inr (by decide))⟩
    case live => decide
    case first => rfl
    case second => rfl
  obtain ⟨w, hrun, hlive, h0, h1⟩ := hrun
  obtain ⟨hkeys, -⟩ := agrees_with_sets hrun
  obtain ⟨hsize, hlist, hpairs⟩ := hkeys 0 (by rw [hlive]; decide)
  obtain ⟨-, hsubset⟩ := hpairs 1 (by rw [hlive]; decide)
  refine ⟨w, hrun, ?_, ?_, ?_⟩
  · rw [hsize, h0]
    rfl
  · rw [hlist 1 (by rw [h0]; decide), h0]
    exact congrArg some (Nat.nth_count (show 70 ∈ ({70, 5} : Finset Nat) by decide))
  · rw [← Bool.not_eq_true, hsubset, h0, h1]
    exact fun himp => absurd (himp.1 rfl) (by decide)

/-- The last position, which a string of 2^32 bits has, ends the program. -/
theorem setBit_last_position : ∃ w : Keys × (Nat → Finset Nat),
    Run Step (Keys.init fun _ => 0#32) [.new 0 8] w ∧
      (Op.setBit 0 4294967295 100).Called w.1 ∧ (Op.setBit 0 4294967295 100).run w.1 = none := by
  refine ⟨_, .snoc .nil (.of_run ?_ rfl), ?_, ?_⟩
  · exact ⟨by decide, by decide, fresh_above (by decide)⟩
  · exact ⟨by decide, by decide, by decide, fresh_above (by decide)⟩
  · rfl

end Hostboot.Prdf.InMemory.BitKey
