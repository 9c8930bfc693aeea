import Mathlib.Algebra.Group.Nat.Defs
import Mathlib.Tactic.Common
import Mathlib.Logic.Function.Basic

/-!
# A memory of bytes

`Mem` is a memory of bytes without bound.  A field of 16 or 32 bits stands high
byte first, as on the processors the kernel runs on.

`SameOutside m m' a n` says that two memories differ at most in the `n` bytes
from `a`.  It is the frame condition of a write: the reads that stay outside
do not see it.
-/

namespace Hostboot.Lib

/-- A memory of bytes. -/
abbrev Mem : Type := Nat → UInt8

namespace Mem

/-- Write one byte. -/
def put (m : Mem) (a : Nat) (v : UInt8) : Mem := Function.update m a v

/-- Read a 16-bit field. -/
def get16 (m : Mem) (a : Nat) : Nat := (m a).toNat * 256 + (m (a + 1)).toNat

/-- Write a 16-bit field. -/
def put16 (m : Mem) (a v : Nat) : Mem :=
  (m.put a (UInt8.ofNat (v / 256))).put (a + 1) (UInt8.ofNat v)

/-- Read a 32-bit field. -/
def get32 (m : Mem) (a : Nat) : Nat := m.get16 a * 65536 + m.get16 (a + 2)

/-- Write a 32-bit field. -/
def put32 (m : Mem) (a v : Nat) : Mem := (m.put16 a (v / 65536)).put16 (a + 2) v

/-- Read a 64-bit field. -/
def get64 (m : Mem) (a : Nat) : Nat := m.get32 a * 2 ^ 32 + m.get32 (a + 4)

/-- Write a 64-bit field. -/
def put64 (m : Mem) (a v : Nat) : Mem := (m.put32 a (v / 2 ^ 32)).put32 (a + 4) v

/-- The bytes from `dst` hold what the `n` bytes from `src` held. -/
def copy (m : Mem) (dst src n : Nat) : Mem := fun x =>
  if dst ≤ x ∧ x < dst + n then m (src + (x - dst)) else m x

/-- The two memories differ at most in the `n` bytes from `a`. -/
def SameOutside (m m' : Mem) (a n : Nat) : Prop :=
  ∀ x, x < a ∨ a + n ≤ x → m' x = m x

@[simp] theorem put_same (m : Mem) (a : Nat) (v : UInt8) : m.put a v a = v := by
  simp [put]

theorem put_of_ne {m : Mem} {a x : Nat} (v : UInt8) (h : x ≠ a) : m.put a v x = m x := by
  simp [put, h]

theorem get16_put16 (m : Mem) (a : Nat) {v : Nat} (h : v < 65536) :
    (m.put16 a v).get16 a = v := by
  have hne : a ≠ a + 1 := by omega
  rw [get16, put16, put_same, put_of_ne _ hne, put_same, UInt8.toNat_ofNat', UInt8.toNat_ofNat']
  omega

theorem get16_congr {m m' : Mem} {a : Nat} (h : m' a = m a) (h' : m' (a + 1) = m (a + 1)) :
    m'.get16 a = m.get16 a := by
  rw [get16, get16, h, h']

theorem get32_eq (m : Mem) (a : Nat) :
    m.get32 a = (m a).toNat * 2 ^ 24 + (m (a + 1)).toNat * 2 ^ 16 + (m (a + 2)).toNat * 2 ^ 8 +
      (m (a + 3)).toNat := by
  unfold get32 get16
  have hlast : a + 2 + 1 = a + 3 := rfl
  rw [hlast]
  omega

theorem put32_bytes (m : Mem) (a v : Nat) :
    m.put32 a v a = UInt8.ofNat (v / 2 ^ 24) ∧ m.put32 a v (a + 1) = UInt8.ofNat (v / 2 ^ 16) ∧
      m.put32 a v (a + 2) = UInt8.ofNat (v / 2 ^ 8) ∧ m.put32 a v (a + 3) = UInt8.ofNat v := by
  unfold put32 put16
  refine ⟨?_, ?_, ?_, ?_⟩
  · rw [put_of_ne _ (by omega), put_of_ne _ (by omega), put_of_ne _ (by omega), put_same,
      Nat.div_div_eq_div_mul]
    rfl
  · rw [put_of_ne _ (by omega), put_of_ne _ (by omega), put_same]
    rfl
  · rw [put_of_ne _ (by omega), put_same]
    rfl
  · rw [put_same]

theorem get32_lt (m : Mem) (a : Nat) : m.get32 a < 2 ^ 32 := by
  have h0 := (m a).toNat_lt
  have h1 := (m (a + 1)).toNat_lt
  have h2 := (m (a + 2)).toNat_lt
  have h3 := (m (a + 3)).toNat_lt
  rw [get32_eq]
  omega

/-- The bytes of a 32-bit field are what was read from another place, whatever stands
above them in the number. -/
theorem put32_get32 (m m' : Mem) (a b h : Nat) :
    ∀ k < 4, m.put32 a (h * 2 ^ 32 + m'.get32 b) (a + k) = m' (b + k) := by
  obtain ⟨p0, p1, p2, p3⟩ := put32_bytes m a (h * 2 ^ 32 + m'.get32 b)
  have h1 := (m' (b + 1)).toNat_lt
  have h2 := (m' (b + 2)).toNat_lt
  have h3 := (m' (b + 3)).toNat_lt
  have hget := get32_eq m' b
  have hbyte : ∀ (x : UInt8) (v : Nat), v % 2 ^ 8 = x.toNat → UInt8.ofNat v = x := by
    intro x v hv
    apply UInt8.toNat.inj
    rw [UInt8.toNat_ofNat', hv]
  intro k hk
  have h0 := (m' b).toNat_lt
  match k with
  | 0 =>
    rw [Nat.add_zero, Nat.add_zero, p0]
    exact hbyte _ _ (by omega)
  | 1 =>
    rw [p1]
    exact hbyte _ _ (by omega)
  | 2 =>
    rw [p2]
    exact hbyte _ _ (by omega)
  | 3 =>
    rw [p3]
    exact hbyte _ _ (by omega)

namespace SameOutside

variable {m m' m'' : Mem} {a n b k : Nat}

theorem refl (m : Mem) (a n : Nat) : SameOutside m m a n := fun _ _ => rfl

theorem trans (h : SameOutside m m' a n) (h' : SameOutside m' m'' a n) :
    SameOutside m m'' a n := by
  intro x hx
  rw [h' x hx, h x hx]

theorem mono (h : SameOutside m m' a n) (hlo : b ≤ a) (hhi : a + n ≤ b + k) :
    SameOutside m m' b k := by
  intro x hx
  exact h x (by omega)

theorem put (m : Mem) (a : Nat) (v : UInt8) : SameOutside m (m.put a v) a 1 := by
  intro x hx
  exact put_of_ne v (by omega)

theorem put16 (m : Mem) (a v : Nat) : SameOutside m (m.put16 a v) a 2 := by
  intro x hx
  rw [Mem.put16, put_of_ne _ (by omega), put_of_ne _ (by omega)]

theorem put32 (m : Mem) (a v : Nat) : SameOutside m (m.put32 a v) a 4 := by
  intro x hx
  rw [Mem.put32, put16 _ _ _ x (by omega), put16 _ _ _ x (by omega)]

theorem copy (m : Mem) (dst src n : Nat) : SameOutside m (m.copy dst src n) dst n := by
  intro x hx
  rw [Mem.copy, if_neg (by omega)]

end SameOutside

/-! ## Copies -/

theorem put_eq_copy (m : Mem) (a b : Nat) : m.put a (m b) = m.copy a b 1 := by
  funext x
  unfold copy
  by_cases hx : x = a
  · subst hx
    rw [put_same, if_pos (by omega), Nat.sub_self, Nat.add_zero]
  · rw [put_of_ne _ hx, if_neg (by omega)]

theorem put64_eq_copy (m : Mem) (a b : Nat) : m.put64 a (m.get64 b) = m.copy a b 8 := by
  have hhigh : m.get64 b / 2 ^ 32 = m.get32 b := by
    have hlt := m.get32_lt (b + 4)
    unfold get64
    omega
  funext x
  unfold copy
  by_cases hin : a ≤ x ∧ x < a + 8
  · rw [if_pos hin, put64, hhigh]
    by_cases hlow : x < a + 4
    · rw [SameOutside.put32 _ _ _ x (by omega)]
      have hbyte := put32_get32 m m a b 0 (x - a) (by omega)
      rw [Nat.zero_mul, Nat.zero_add, show a + (x - a) = x by omega] at hbyte
      exact hbyte
    · have hbyte := put32_get32 (m.put32 a (m.get32 b)) m (a + 4) (b + 4) (m.get32 b) (x - a - 4)
        (by omega)
      rw [show a + 4 + (x - a - 4) = x by omega,
        show b + 4 + (x - a - 4) = b + (x - a) by omega] at hbyte
      exact hbyte
  · rw [if_neg hin, put64, SameOutside.put32 _ _ _ x (by omega),
      SameOutside.put32 _ _ _ x (by omega)]

@[simp] theorem copy_zero (m : Mem) (a b : Nat) : m.copy a b 0 = m := by
  funext x
  exact if_neg (by omega)

theorem copy_forward (m : Mem) {a b : Nat} (h : a ≤ b) (k n : Nat) :
    (m.copy a b k).copy (a + k) (b + k) n = m.copy a b (k + n) := by
  funext x
  simp only [copy]
  by_cases hlast : a + k ≤ x ∧ x < a + k + n
  · rw [if_pos hlast, if_neg (by omega), if_pos (by omega)]
    congr 1
    omega
  · rw [if_neg hlast]
    by_cases hfirst : a ≤ x ∧ x < a + k
    · rw [if_pos hfirst, if_pos (by omega)]
    · rw [if_neg hfirst, if_neg (by omega)]

theorem copy_backward (m : Mem) {a b : Nat} (h : b ≤ a) (k n : Nat) :
    (m.copy (a + k) (b + k) n).copy a b k = m.copy a b (k + n) := by
  funext x
  simp only [copy]
  by_cases hfirst : a ≤ x ∧ x < a + k
  · rw [if_pos hfirst, if_neg (by omega), if_pos (by omega)]
  · rw [if_neg hfirst]
    by_cases hlast : a + k ≤ x ∧ x < a + k + n
    · rw [if_pos hlast, if_pos (by omega)]
      congr 1
      omega
    · rw [if_neg hlast, if_neg (by omega)]

end Mem

end Hostboot.Lib
