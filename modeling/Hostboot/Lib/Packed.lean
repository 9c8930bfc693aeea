import Hostboot.Lib.Wire

/-!
# Packed records

The fields of a packed C record on a big-endian processor: machine words,
arrays of bytes and text that ends in a zero.  Each kind of field has its bytes,
its reader and the round trip between them, so that a record is proved by
walking its reader with `Reads.bind`.

`strncpy n s` is the text of `s` in a field of `n` bytes.  It keeps a field that
is padded already (`strncpy_eq_self`).
-/

namespace Hostboot.Lib

open List

namespace Packed

open Wire

/-- A 16-bit field. -/
def u16 (x : UInt16) : Bytes := encode 2 x.toNat

/-- A 32-bit field. -/
def u32 (x : UInt32) : Bytes := encode 4 x.toNat

/-- A 64-bit field. -/
def u64 (x : UInt64) : Bytes := encode 8 x.toNat

/-- `n` bytes that are all zero. -/
def zeros (n : Nat) : Bytes := List.replicate n 0

@[simp] theorem length_u16 (x : UInt16) : (u16 x).length = 2 := length_encode 2 _

@[simp] theorem length_u32 (x : UInt32) : (u32 x).length = 4 := length_encode 4 _

@[simp] theorem length_u64 (x : UInt64) : (u64 x).length = 8 := length_encode 8 _

@[simp] theorem length_zeros (n : Nat) : (zeros n).length = n := length_replicate

end Packed

namespace Reader

/-- Take a 16-bit field. -/
def u16 : Reader UInt16 := UInt16.ofNat <$> word 2

/-- Take a 32-bit field. -/
def u32 : Reader UInt32 := UInt32.ofNat <$> word 4

/-- Take a 64-bit field. -/
def u64 : Reader UInt64 := UInt64.ofNat <$> word 8

/-- Take an array of `n` bytes. -/
def array (n : Nat) : Reader Bytes := fun bs =>
  if bs.length < n then none else some (bs.take n, bs.drop n)

end Reader

namespace Reads

theorem u16 (x : UInt16) : Reads Reader.u16 (Packed.u16 x) x := by
  have hx : x.toNat < 256 ^ 2 := x.toNat_lt
  have h : Reads Reader.u16 (Packed.u16 x) (UInt16.ofNat x.toNat) := (Reads.word hx).map _
  rwa [UInt16.ofNat_toNat] at h

theorem u32 (x : UInt32) : Reads Reader.u32 (Packed.u32 x) x := by
  have hx : x.toNat < 256 ^ 4 := x.toNat_lt
  have h : Reads Reader.u32 (Packed.u32 x) (UInt32.ofNat x.toNat) := (Reads.word hx).map _
  rwa [UInt32.ofNat_toNat] at h

theorem u64 (x : UInt64) : Reads Reader.u64 (Packed.u64 x) x := by
  have hx : x.toNat < 256 ^ 8 := x.toNat_lt
  have h : Reads Reader.u64 (Packed.u64 x) (UInt64.ofNat x.toNat) := (Reads.word hx).map _
  rwa [UInt64.ofNat_toNat] at h

theorem array {n : Nat} {bs : Bytes} (h : bs.length = n) : Reads (Reader.array n) bs bs := by
  intro rest
  have hlen : ¬ (bs ++ rest).length < n := by
    rw [length_append]
    omega
  rw [Reader.array, if_neg hlen, take_left' h, drop_left' h]

end Reads

/-! ## Text -/

namespace Packed

/-- The text at the front of an array of characters. -/
def cstr (s : Bytes) : Bytes := s.takeWhile (· != 0)

/-- The text of `s` in a field of `n` bytes, cut or padded with zeros. -/
def strncpy (n : Nat) (s : Bytes) : Bytes :=
  (cstr (s.take n)) ++ zeros (n - (cstr (s.take n)).length)

theorem length_cstr_le (s : Bytes) : (cstr s).length ≤ s.length :=
  (takeWhile_sublist _).length_le

@[simp] theorem length_strncpy (n : Nat) (s : Bytes) : (strncpy n s).length = n := by
  have hle : (cstr (s.take n)).length ≤ n :=
    Nat.le_trans (length_cstr_le _) (length_take_le n s)
  rw [strncpy, length_append, length_zeros]
  omega

theorem cstr_strncpy (n : Nat) (s : Bytes) : cstr (strncpy n s) = cstr (s.take n) := by
  have htext : ∀ b ∈ cstr (s.take n), (b != 0) = true := fun b hb =>
    all_eq_true.mp all_takeWhile b hb
  rw [cstr, strncpy, takeWhile_append_of_pos htext]
  cases hk : n - (cstr (s.take n)).length with
  | zero => simp [zeros]
  | succ k => simp [zeros, replicate_succ]

theorem cstr_append_zero (s : Bytes) : cstr (s ++ [0]) = cstr s := by
  unfold cstr
  rw [takeWhile_append]
  split
  · rename_i h
    have hall : s.takeWhile (· != 0) = s := (List.takeWhile_prefix _).eq_of_length h
    rw [hall, takeWhile_cons_of_neg (by decide), append_nil]
  · rfl

theorem cstr_take (n : Nat) (s : Bytes) : cstr (s.take n) = (cstr s).take n :=
  take_takeWhile.symm

theorem strncpy_strncpy (n : Nat) (s : Bytes) : strncpy n (strncpy n s) = strncpy n s := by
  have htake : (strncpy n s).take n = strncpy n s :=
    take_of_length_le (Nat.le_of_eq (length_strncpy n s))
  rw [strncpy, htake, cstr_strncpy, strncpy]

theorem strncpy_eq_self {n : Nat} {s t : Bytes} (h : s = strncpy n t) : strncpy n s = s := by
  rw [h, strncpy_strncpy]

theorem strncpy_zeros (n : Nat) : strncpy n (zeros n) = zeros n := by
  have hcstr : cstr (zeros n) = [] := by
    cases n with
    | zero => rfl
    | succ n => simp [zeros, cstr, replicate_succ]
  have htake : (zeros n).take n = zeros n :=
    take_of_length_le (Nat.le_of_eq (length_zeros n))
  rw [strncpy, htake, hcstr, nil_append, length_nil, Nat.sub_zero]

end Packed

end Hostboot.Lib
