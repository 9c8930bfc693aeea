import Hostboot.Lib.Bytes

/-!
# `memcpy` and `memmove`

The copies of `src/lib/string_utils.C`.  `memcpy` moves 8-byte words and then
the bytes that are left, first to last.  `memmove` calls it when the destination
is not behind the source, and else copies the bytes last to first.

An address is a `Nat`, and a word is read and written at any of them.  Every loop
is one lemma that says what it copies from any point on; each rests on
`Mem.copy_forward` or `Mem.copy_backward`.
-/

namespace Hostboot.Libc

open Hostboot.Lib

/-! ## The functions of the source -/

/-- The loop of `memcpy` over words: the memory, the pointers and the length that
it leaves. -/
def copyWords (m : Mem) (ldest lsrc : Nat) : Nat → Mem × Nat × Nat × Nat
  | len + 8 => copyWords (m.put64 ldest (m.get64 lsrc)) (ldest + 8) (lsrc + 8) len
  | len => (m, ldest, lsrc, len)

/-- The loop of `memcpy` over bytes, from the index `i` on with `n` to go. -/
def copyBytes (m : Mem) (cdest csrc i : Nat) : Nat → Mem
  | 0 => m
  | n + 1 => copyBytes (m.put (cdest + i) (m (csrc + i))) cdest csrc (i + 1) n

/-- `memcpy`: the memory and the returned pointer. -/
def memcpy (m : Mem) (vdest vsrc len : Nat) : Mem × Nat :=
  let (m, cdest, csrc, len) := copyWords m vdest vsrc len
  (copyBytes m cdest csrc 0 len, vdest)

/-- The loop of `memmove`, last to first. -/
def copyBack (m : Mem) (dest src : Nat) : Nat → Mem
  | 0 => m
  | i + 1 => copyBack (m.put (dest + i) (m (src + i))) dest src i

/-- `memmove`: the memory and the returned pointer. -/
def memmove (m : Mem) (vdest vsrc len : Nat) : Mem × Nat :=
  if vdest ≤ vsrc then memcpy m vdest vsrc len
  else (copyBack m vdest vsrc len, vdest)

/-! ## The loops -/

variable {d s : Nat}

theorem copyBytes_eq (m : Mem) (h : d ≤ s) (c i n : Nat) :
    copyBytes (m.copy d s (c + i)) (d + c) (s + c) i n = m.copy d s (c + i + n) := by
  induction n generalizing i with
  | zero => rfl
  | succ n ih =>
    have hstep : (m.copy d s (c + i)).put (d + c + i) (m.copy d s (c + i) (s + c + i))
        = m.copy d s (c + (i + 1)) := by
      rw [Mem.put_eq_copy, Nat.add_assoc d, Nat.add_assoc s, m.copy_forward h]
      rfl
    rw [copyBytes, hstep, ih (i + 1)]
    congr 1
    omega

/-- After `k` bytes the loop over words copies words, and leaves less than one. -/
theorem copyWords_eq (m : Mem) (h : d ≤ s) (k len : Nat) :
    ∃ c left, k + len = c + left ∧
      copyWords (m.copy d s k) (d + k) (s + k) len = (m.copy d s c, d + c, s + c, left) := by
  induction len using Nat.strongRecOn generalizing k with
  | ind len ih =>
    by_cases hlen : 8 ≤ len
    · obtain ⟨rest, rfl⟩ : ∃ rest, len = rest + 8 := ⟨len - 8, by omega⟩
      have hstep : (m.copy d s k).put64 (d + k) ((m.copy d s k).get64 (s + k))
          = m.copy d s (k + 8) := by
        rw [Mem.put64_eq_copy, m.copy_forward h]
      obtain ⟨c, left, hsum, heq⟩ := ih rest (by omega) (k + 8)
      refine ⟨c, left, by omega, ?_⟩
      rw [copyWords, hstep]
      exact heq
    · refine ⟨k, len, rfl, ?_⟩
      match len, hlen with
      | 0, _ | 1, _ | 2, _ | 3, _ | 4, _ | 5, _ | 6, _ | 7, _ => rfl
      | rest + 8, hlen => exact absurd (Nat.le_add_left 8 rest) hlen

theorem memcpy_eq (m : Mem) (h : d ≤ s) (n : Nat) : memcpy m d s n = (m.copy d s n, d) := by
  obtain ⟨c, left, hsum, hwords⟩ := copyWords_eq m h 0 n
  have hcopied : copyBytes (m.copy d s c) (d + c) (s + c) 0 left = m.copy d s n := by
    rw [show n = c + left by omega]
    exact copyBytes_eq m h c 0 left
  rw [Mem.copy_zero, Nat.add_zero, Nat.add_zero] at hwords
  unfold memcpy
  rw [hwords]
  dsimp only
  rw [hcopied]

theorem copyBack_eq (m : Mem) (h : s ≤ d) (k n : Nat) :
    copyBack (m.copy (d + k) (s + k) n) d s k = m.copy d s (k + n) := by
  induction k generalizing n with
  | zero => rw [copyBack, Nat.add_zero, Nat.add_zero, Nat.zero_add]
  | succ k ih =>
    have hstep : (m.copy (d + (k + 1)) (s + (k + 1)) n).put (d + k)
        (m.copy (d + (k + 1)) (s + (k + 1)) n (s + k)) = m.copy (d + k) (s + k) (1 + n) := by
      rw [Mem.put_eq_copy, ← Nat.add_assoc, ← Nat.add_assoc]
      exact m.copy_backward (by omega) 1 n
    rw [copyBack, hstep, ih]
    congr 1
    omega

/-! ## `memmove` -/

/-- After `memmove` the `n` bytes at the destination are what the source held
before, and no other byte has changed, wherever the two places lie. -/
theorem memmove_copies (m : Mem) (d s n : Nat) :
    (memmove m d s n).2 = d ∧
      (∀ i < n, (memmove m d s n).1 (d + i) = m (s + i)) ∧
      ∀ x, x < d ∨ d + n ≤ x → (memmove m d s n).1 x = m x := by
  have hcopy : memmove m d s n = (m.copy d s n, d) := by
    unfold memmove
    by_cases hle : d ≤ s
    · rw [if_pos hle]
      exact memcpy_eq m hle n
    · have hback := copyBack_eq m (Nat.le_of_not_le hle) n 0
      rw [Mem.copy_zero] at hback
      rw [if_neg hle, hback, Nat.add_zero]
  rw [hcopy]
  refine ⟨rfl, fun i hi => ?_, fun x hx => Mem.SameOutside.copy m d s n x hx⟩
  dsimp only [Mem.copy]
  rw [if_pos (by omega), Nat.add_sub_cancel_left]

end Hostboot.Libc
