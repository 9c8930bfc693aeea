import Mathlib.Data.Finset.Card
import Mathlib.Data.Finset.Range

/-!
# Parities and error patterns

A linear code adds check bits to a word, each the parity of some of its bits.
A corruption of a code word is a pattern that is added to it, and what the
check bits see of it depends on the pattern alone.

* `parity` is additive (`parity_xor`), and so is every map that is made of
  parities.
* `weight` counts the bits of a pattern.  A pattern of weight one is a single
  bit, and one of weight two is the sum of two different bits.
* `Detects table syn code` says that a table answers the syndromes of all
  patterns of weight two or less: `clean`, the code of the flipped bit, or
  `bad`.
-/

namespace Hostboot.Lib

variable {n m : Nat}

/-! ## Parity -/

/-- The sum of the bits. -/
def parity (x : BitVec n) : Bool := (List.range n).foldl (fun p i => p ^^ x.getLsbD i) false

theorem parity_xor (x y : BitVec n) : parity (x ^^^ y) = (parity x ^^ parity y) := by
  have hfold : ∀ (l : List Nat) (p q : Bool),
      l.foldl (fun p i => p ^^ (x ^^^ y).getLsbD i) (p ^^ q)
        = (l.foldl (fun p i => p ^^ x.getLsbD i) p ^^ l.foldl (fun p i => p ^^ y.getLsbD i) q) := by
    intro l
    induction l with
    | nil =>
      intro p q
      rfl
    | cons i l ih =>
      intro p q
      rw [List.foldl_cons, List.foldl_cons, List.foldl_cons, ← ih, BitVec.getLsbD_xor]
      congr 1
      cases p <;> cases q <;> cases x.getLsbD i <;> cases y.getLsbD i <;> rfl
  exact hfold (List.range n) false false

theorem parity_and_twoPow (x : BitVec n) {i : Nat} (hi : i < n) :
    parity (x &&& BitVec.twoPow n i) = x.getLsbD i := by
  have hbit : ∀ k, (x &&& BitVec.twoPow n i).getLsbD k = (decide (i = k) && x.getLsbD i) := by
    intro k
    rw [BitVec.getLsbD_and, BitVec.getLsbD_twoPow]
    by_cases hk : i = k
    · rw [← hk]
      simp [hi]
    · simp [hk]
  have hfold : ∀ (l : List Nat) (p : Bool), l.Nodup →
      l.foldl (fun p k => p ^^ (x &&& BitVec.twoPow n i).getLsbD k) p
        = (p ^^ (decide (i ∈ l) && x.getLsbD i)) := by
    intro l
    induction l with
    | nil =>
      intro p _
      simp
    | cons k l ih =>
      intro p hnodup
      rw [List.nodup_cons] at hnodup
      rw [List.foldl_cons, ih _ hnodup.2, hbit]
      by_cases hk : i = k
      · rw [← hk] at hnodup ⊢
        simp [hnodup.1]
      · simp [hk]
  rw [parity, hfold _ _ List.nodup_range, decide_eq_true (List.mem_range.mpr hi), Bool.true_and,
    Bool.false_xor]

/-! ## Weight -/

/-- The number of bits of a pattern. -/
def weight (x : BitVec n) : Nat := ((Finset.range n).filter fun i => x.getLsbD i = true).card

theorem weight_eq_zero {x : BitVec n} (h : weight x = 0) : x = 0#n := by
  rw [weight, Finset.card_eq_zero, Finset.filter_eq_empty_iff] at h
  refine BitVec.eq_of_getLsbD_eq fun i hi => ?_
  rw [BitVec.getLsbD_zero]
  exact Bool.eq_false_iff.mpr (h (Finset.mem_range.mpr hi))

theorem weight_flip {x : BitVec n} {i : Nat} (hi : i < n) (hx : x.getLsbD i = true) :
    weight (x ^^^ BitVec.twoPow n i) + 1 = weight x := by
  have hmem : i ∈ (Finset.range n).filter fun i => x.getLsbD i = true :=
    Finset.mem_filter.mpr ⟨Finset.mem_range.mpr hi, hx⟩
  have herase : (Finset.range n).filter (fun k => (x ^^^ BitVec.twoPow n i).getLsbD k = true)
      = ((Finset.range n).filter fun k => x.getLsbD k = true).erase i := by
    ext k
    rw [Finset.mem_erase, Finset.mem_filter, Finset.mem_filter, BitVec.getLsbD_xor,
      BitVec.getLsbD_twoPow]
    by_cases hk : i = k
    · rw [← hk, hx]
      simp [hi]
    · have hne : k ≠ i := fun heq => hk heq.symm
      simp [hk, hne]
  rw [weight, herase, Finset.card_erase_of_mem hmem, weight]
  have hpos := Finset.card_pos.mpr ⟨i, hmem⟩
  omega

theorem exists_bit {x : BitVec n} (h : 0 < weight x) : ∃ i < n, x.getLsbD i = true := by
  obtain ⟨i, hi⟩ := Finset.card_pos.mp h
  rw [Finset.mem_filter, Finset.mem_range] at hi
  exact ⟨i, hi.1, hi.2⟩

theorem weight_eq_one {x : BitVec n} (h : weight x = 1) : ∃ i < n, x = BitVec.twoPow n i := by
  obtain ⟨i, hi, hx⟩ := exists_bit (x := x) (by omega)
  have hrest := weight_flip hi hx
  have hzero := weight_eq_zero (x := x ^^^ BitVec.twoPow n i) (by omega)
  exact ⟨i, hi, BitVec.xor_eq_zero_iff.mp hzero⟩

theorem weight_eq_two {x : BitVec n} (h : weight x = 2) :
    ∃ i < n, ∃ j < n, i ≠ j ∧ x = BitVec.twoPow n i ^^^ BitVec.twoPow n j := by
  obtain ⟨i, hi, hx⟩ := exists_bit (x := x) (by omega)
  have hrest := weight_flip hi hx
  obtain ⟨j, hj, hbit⟩ := weight_eq_one (x := x ^^^ BitVec.twoPow n i) (by omega)
  refine ⟨i, hi, j, hj, ?_, ?_⟩
  · intro heq
    have hat := congrArg (fun y => y.getLsbD i) hbit
    rw [BitVec.getLsbD_xor, hx, BitVec.getLsbD_twoPow, BitVec.getLsbD_twoPow, heq] at hat
    rw [heq] at hi
    simp [hi] at hat
  · rw [← hbit, BitVec.xor_comm x, ← BitVec.xor_assoc, BitVec.xor_self, BitVec.zero_xor]

/-! ## Tables of syndromes -/

/-- A table that answers the syndromes of the patterns of weight two or less. -/
structure Detects {α : Type*} (table : BitVec m → α) (syn : BitVec n → BitVec m) (clean bad : α)
    (code : Nat → α) : Prop where
  additive : ∀ x y, syn (x ^^^ y) = syn x ^^^ syn y
  none : table 0#m = clean
  single : ∀ i < n, table (syn (BitVec.twoPow n i)) = code i
  double : ∀ i < n, ∀ j < n, i ≠ j →
    table (syn (BitVec.twoPow n i) ^^^ syn (BitVec.twoPow n j)) = bad

namespace Detects

variable {α : Type*} {table : BitVec m → α} {syn : BitVec n → BitVec m} {clean bad : α}
  {code : Nat → α}

theorem syn_zero (h : Detects table syn clean bad code) : syn 0#n = 0#m := by
  have hself := h.additive 0#n 0#n
  rw [BitVec.xor_self, BitVec.xor_self] at hself
  exact hself

theorem of_zero (h : Detects table syn clean bad code) {x : BitVec n} (hx : weight x = 0) :
    table (syn x) = clean := by
  rw [weight_eq_zero hx, h.syn_zero, h.none]

theorem of_one (h : Detects table syn clean bad code) {x : BitVec n} (hx : weight x = 1) :
    ∃ i < n, x = BitVec.twoPow n i ∧ table (syn x) = code i := by
  obtain ⟨i, hi, hbit⟩ := weight_eq_one hx
  exact ⟨i, hi, hbit, by rw [hbit, h.single i hi]⟩

theorem of_two (h : Detects table syn clean bad code) {x : BitVec n} (hx : weight x = 2) :
    table (syn x) = bad := by
  obtain ⟨i, hi, j, hj, hne, hbits⟩ := weight_eq_two hx
  rw [hbits, h.additive, h.double i hi j hj hne]

end Detects

end Hostboot.Lib
