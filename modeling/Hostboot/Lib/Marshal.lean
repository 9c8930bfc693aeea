import Hostboot.Lib.Bytes
import Hostboot.Lib.Wire
import Mathlib.Data.List.GetD

/-!
# Records in memory

Records are marshalled into a memory one field behind the other, and read back
from it.  `Mem.read` and `Mem.write` move lists of bytes, and
`Mem.Holds m p bs` says that the bytes `bs` stand at `p`.

The lemmas do three things:

* writes side by side are one write (`write_append`), and bytes side by side
  are one list (`holds_append`);
* a write holds what it wrote and leaves the rest alone (`holds_write`,
  `holds_of_sameOutside`);
* little-endian words are read from the bytes of `Wire.encode`, backwards
  (`getLE_of_holds`, `holds_getLE`).
-/

namespace Hostboot.Lib.Mem

open List

/-- The `n` bytes from `p` on. -/
def read (m : Mem) (p n : Nat) : List UInt8 := (List.range n).map fun i => m (p + i)

/-- Write bytes from `p` on. -/
def write (m : Mem) (p : Nat) (bs : List UInt8) : Mem := fun x =>
  if p ≤ x ∧ x < p + bs.length then bs.getD (x - p) 0 else m x

/-- The bytes `bs` stand at `p`. -/
def Holds (m : Mem) (p : Nat) (bs : List UInt8) : Prop := m.read p bs.length = bs

/-- A little-endian number of `k` bytes. -/
def getLE (m : Mem) (p k : Nat) : Nat := Wire.decode (m.read p k).reverse

/-- The little-endian bytes of a number. -/
def bytesLE (k n : Nat) : List UInt8 := (Wire.encode k n).reverse

@[simp] theorem length_read (m : Mem) (p n : Nat) : (m.read p n).length = n := by
  rw [read, length_map, length_range]

@[simp] theorem length_bytesLE (k n : Nat) : (bytesLE k n).length = k := by
  rw [bytesLE, length_reverse, Wire.length_encode]

theorem read_add (m : Mem) (p a b : Nat) : m.read p (a + b) = m.read p a ++ m.read (p + a) b := by
  unfold read
  rw [range_add, map_append, map_map]
  congr 1
  exact map_congr_left fun i _ => congrArg m (Nat.add_assoc p a i).symm

variable {m m' : Mem} {p n : Nat} {bs : List UInt8}

theorem read_congr (h : ∀ i < n, m' (p + i) = m (p + i)) :
    m'.read p n = m.read p n :=
  map_congr_left fun i hi => h i (mem_range.mp hi)

theorem holds_append {bs' : List UInt8} :
    m.Holds p (bs ++ bs') ↔ m.Holds p bs ∧ m.Holds (p + bs.length) bs' := by
  unfold Holds
  rw [length_append, read_add]
  constructor
  · exact fun h => append_inj h (length_read m p _)
  · rintro ⟨h, h'⟩
    rw [h, h']

theorem holds_nil (m : Mem) (p : Nat) : m.Holds p [] := rfl

theorem holds_read (m : Mem) (p n : Nat) : m.Holds p (m.read p n) := by
  rw [Holds, length_read]

theorem Holds.byte {i : Nat} (h : m.Holds p bs) (hi : i < bs.length) : m (p + i) = bs[i] := by
  have hget : (m.read p bs.length)[i]? = bs[i]? := congrArg (·[i]?) h
  simpa [read, hi] using hget

/-! ## Writes -/

theorem holds_write (m : Mem) (p : Nat) (bs : List UInt8) : (m.write p bs).Holds p bs := by
  refine ext_getElem (length_read _ _ _) fun i hi hi' => ?_
  simp [read, write, hi']

theorem write_sameOutside (m : Mem) (p : Nat) (bs : List UInt8) :
    SameOutside m (m.write p bs) p bs.length := by
  intro x hx
  rw [write, if_neg (by omega)]

theorem write_append (m : Mem) (p : Nat) (bs bs' : List UInt8) :
    (m.write p bs).write (p + bs.length) bs' = m.write p (bs ++ bs') := by
  funext x
  unfold write
  rw [length_append]
  by_cases hlo : x < p
  · rw [if_neg (by omega), if_neg (by omega), if_neg (by omega)]
  by_cases hmid : x < p + bs.length
  · have hin : x - p < bs.length := by omega
    rw [if_neg (by omega), if_pos (by omega), if_pos (by omega), getD_append _ _ _ _ hin]
  by_cases hhi : x < p + bs.length + bs'.length
  · have hout : bs.length ≤ x - p := by omega
    have hindex : x - (p + bs.length) = x - p - bs.length := by omega
    rw [if_pos (by omega), if_pos (by omega), getD_append_right _ _ _ _ hout, hindex]
  · rw [if_neg (by omega), if_neg (by omega), if_neg (by omega)]

theorem Holds.of_sameOutside {a : Nat} (h : m.Holds p bs) (hsame : SameOutside m m' a n)
    (hlo : p + bs.length ≤ a) : m'.Holds p bs := by
  unfold Holds
  rw [read_congr fun i hi => hsame (p + i) (.inl (by omega))]
  exact h

theorem Holds.of_sameOutside_behind {a : Nat} (h : m.Holds p bs) (hsame : SameOutside m m' a n)
    (hhi : a + n ≤ p) : m'.Holds p bs := by
  unfold Holds
  rw [read_congr fun i _ => hsame (p + i) (.inr (by omega))]
  exact h

/-! ## Words -/

theorem getLE_of_holds {k : Nat} (h : m.Holds p (bytesLE k n)) (hn : n < 256 ^ k) :
    m.getLE p k = n := by
  rw [Holds, length_bytesLE] at h
  rw [getLE, h, bytesLE, reverse_reverse, Wire.decode_encode_of_lt hn]

theorem holds_getLE (m : Mem) (p k : Nat) : m.Holds p (bytesLE k (m.getLE p k)) := by
  have hlen : (m.read p k).reverse.length = k := by rw [length_reverse, length_read]
  rw [bytesLE, getLE, Wire.encode_decode hlen, reverse_reverse]
  exact holds_read m p k

theorem getLE_lt (m : Mem) (p k : Nat) : m.getLE p k < 256 ^ k := by
  have hlen : (m.read p k).reverse.length = k := by rw [length_reverse, length_read]
  exact Wire.decode_lt hlen

theorem getLE_eq_zero {k : Nat} (h : ∀ i < k, m (p + i) = 0) : m.getLE p k = 0 := by
  have hzero : ∀ n : Nat, Wire.decode (List.replicate n 0) = 0 := by
    intro n
    induction n with
    | zero => rfl
    | succ n ih =>
      rw [replicate_succ', Wire.decode_append, ih]
      rfl
  have hread : m.read p k = List.replicate k 0 :=
    eq_replicate_iff.mpr ⟨length_read m p k, fun b hb => by
      obtain ⟨i, hi, rfl⟩ := mem_map.mp hb
      exact h i (mem_range.mp hi)⟩
  rw [getLE, hread, reverse_replicate]
  exact hzero k

end Hostboot.Lib.Mem
