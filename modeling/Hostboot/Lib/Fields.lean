import Hostboot.Lib.Marshal

/-!
# Fields of packed structures

A packed structure is a range of a memory, and a field of it is an offset with
a size.  A field that is a number stands high byte first.

The lemmas say what is read of a structure

* after one of its fields has been set (`get_set`, `bytesOf_setBytes_of_apart`);
* after it has been copied somewhere as a whole or up to one of its fields
  (`bytesOf_copyTo`, `bytesOf_copyTo_of_apart`).
-/

namespace Hostboot.Lib

/-- A field of a packed structure. -/
structure Field where
  offset : Nat
  size : Nat
  deriving DecidableEq, Repr

/-- Two fields share no byte. -/
def Field.Apart (f g : Field) : Prop :=
  f.offset + f.size ≤ g.offset ∨ g.offset + g.size ≤ f.offset

instance (f g : Field) : Decidable (f.Apart g) := inferInstanceAs (Decidable (_ ∨ _))

namespace Mem

/-- The bytes of a field of the structure at `base`. -/
def bytesOf (m : Mem) (base : Nat) (f : Field) : Bytes := m.read (base + f.offset) f.size

/-- The number in a field of the structure at `base`. -/
def get (m : Mem) (base : Nat) (f : Field) : Nat := Wire.decode (m.bytesOf base f)

/-- Set the bytes of a field of the structure at 0. -/
def setBytes (m : Mem) (f : Field) (bs : Bytes) : Mem := m.write f.offset bs

/-- Set the number in a field of the structure at 0. -/
def set (m : Mem) (f : Field) (n : Nat) : Mem := m.setBytes f (Wire.encode f.size n)

/-- `memcpy` of `n` bytes from the place `q` of a memory to the place `p` of
another one. -/
def copyTo (m : Mem) (p : Nat) (src : Mem) (q n : Nat) : Mem := m.write p (src.read q n)

variable {m src : Mem} {f g : Field}

theorem bytesOf_setBytes {bs : Bytes} (h : bs.length = f.size) :
    (m.setBytes f bs).bytesOf 0 f = bs := by
  unfold bytesOf setBytes
  rw [Nat.zero_add, ← h]
  exact holds_write m f.offset bs

theorem bytesOf_setBytes_of_apart {bs : Bytes} (h : bs.length = f.size) (happart : g.Apart f) :
    (m.setBytes f bs).bytesOf 0 g = m.bytesOf 0 g := by
  unfold bytesOf setBytes
  refine read_congr fun i hi => write_sameOutside m f.offset bs _ ?_
  unfold Field.Apart at happart
  omega

theorem get_set {n : Nat} (h : n < 256 ^ f.size) : (m.set f n).get 0 f = n := by
  unfold get set
  rw [bytesOf_setBytes (Wire.length_encode _ _), Wire.decode_encode_of_lt h]

theorem bytesOf_set_of_apart (n : Nat) (happart : g.Apart f) :
    (m.set f n).bytesOf 0 g = m.bytesOf 0 g :=
  bytesOf_setBytes_of_apart (Wire.length_encode _ _) happart

theorem get_set_of_apart (n : Nat) (happart : g.Apart f) : (m.set f n).get 0 g = m.get 0 g :=
  congrArg Wire.decode (bytesOf_set_of_apart n happart)

theorem bytesOf_copyTo {p q n : Nat} (h : f.offset + f.size ≤ n) :
    (m.copyTo p src q n).bytesOf p f = src.bytesOf q f := by
  unfold bytesOf copyTo read
  refine List.map_congr_left fun i hi => ?_
  have hi := List.mem_range.mp hi
  have hlen : ((List.range n).map fun i => src (q + i)).length = n := by
    rw [List.length_map, List.length_range]
  have hin : p + f.offset + i - p = f.offset + i := by omega
  rw [write, hlen, if_pos (by omega), hin, List.getD_eq_getElem _ _ (by omega), List.getElem_map,
    List.getElem_range, Nat.add_assoc]

theorem bytesOf_copyTo_of_apart {p q n base : Nat}
    (h : base + f.offset + f.size ≤ p ∨ p + n ≤ base + f.offset) :
    (m.copyTo p src q n).bytesOf base f = m.bytesOf base f := by
  unfold bytesOf copyTo
  refine read_congr fun i hi => write_sameOutside m p _ _ ?_
  rw [length_read]
  omega

end Mem

end Hostboot.Lib
