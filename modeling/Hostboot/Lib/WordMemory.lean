import Mathlib.Logic.Function.Basic
import Mathlib.Tactic.Common

/-!
# A memory of words, bit by bit

`WordMem w` is a memory of words of `w` bits.  Its bits are numbered through all words, the
leftmost bit of a word first: `m.bit x`.

`Writes m m' lo hi v` says that `m'` is `m` with the bits from `lo` to `hi` replaced by those
of `v`.  It is the result of a write and its frame condition in one.  Writes side by side
are one write, in either order (`Writes.append`, `Writes.prepend`), and what is written has
no effect on a read elsewhere (`Writes.bit_of_lt`, `Writes.bit_of_le`).
-/

namespace Hostboot.Lib

/-- A memory of words. -/
abbrev WordMem (w : Nat) : Type := Nat → BitVec w

namespace WordMem

variable {w : Nat}

/-- A bit of the memory. -/
def bit (m : WordMem w) (x : Nat) : Bool := (m (x / w)).getMsbD (x % w)

/-- Write one word. -/
def put (m : WordMem w) (a : Nat) (v : BitVec w) : WordMem w := Function.update m a v

/-- Copy `n` words. -/
def memcpy (m : WordMem w) (dst src n : Nat) : WordMem w := fun a =>
  if dst ≤ a ∧ a < dst + n then m (src + (a - dst)) else m a

/-- The memory in which one bit is set. -/
def oneBit (w x : Nat) : WordMem w := fun a => if a = x / w then BitVec.twoPow w (w - 1 - x % w) else 0

/-- The bits from `lo` to `hi` are replaced by those of `v`, and no others. -/
def Writes (m m' : WordMem w) (lo hi : Nat) (v : Nat → Bool) : Prop :=
  ∀ x, m'.bit x = if lo ≤ x ∧ x < hi then v x else m.bit x

variable {m m' m1 m2 : WordMem w} {lo mid hi x : Nat} {v v' : Nat → Bool}

@[simp] theorem put_same (m : WordMem w) (a : Nat) (v : BitVec w) : m.put a v a = v :=
  Function.update_self _ _ _

theorem put_of_ne (m : WordMem w) {a b : Nat} (v : BitVec w) (h : b ≠ a) : m.put a v b = m b :=
  Function.update_of_ne h _ _

theorem bit_word (m : WordMem w) (a : Nat) {i : Nat} (hi : i < w) :
    m.bit (w * a + i) = (m a).getMsbD i := by
  have hw : 0 < w := Nat.zero_lt_of_lt hi
  unfold bit
  rw [Nat.mul_add_div hw, Nat.div_eq_of_lt hi, Nat.add_zero, Nat.mul_add_mod, Nat.mod_eq_of_lt hi]

theorem word_ext (h : ∀ i < w, m.bit (w * lo + i) = m'.bit (w * hi + i)) : m lo = m' hi := by
  refine BitVec.eq_of_getMsbD_eq fun i hi => ?_
  rw [← bit_word m lo hi, ← bit_word m' _ hi]
  exact h i hi

theorem bit_oneBit {y : Nat} (hw : 0 < w) : (oneBit w x).bit y = decide (y = x) := by
  have hx := Nat.mod_lt x hw
  have hy := Nat.mod_lt y hw
  unfold bit oneBit
  by_cases hword : y / w = x / w
  · have hiff : y = x ↔ y % w = x % w := by
      constructor
      · rintro rfl
        rfl
      · intro hmod
        rw [← Nat.div_add_mod y w, ← Nat.div_add_mod x w, hword, hmod]
    rw [if_pos hword, BitVec.getMsbD_twoPow, Bool.eq_iff_iff]
    simp only [Bool.and_eq_true, decide_eq_true_eq]
    omega
  · have hne : y ≠ x := fun heq => hword (congrArg (· / w) heq)
    rw [if_neg hword, decide_eq_false hne]
    exact BitVec.getMsbD_zero

namespace Writes

theorem nil (m : WordMem w) (lo : Nat) (v : Nat → Bool) : Writes m m lo lo v := by
  intro x
  rw [if_neg (by omega)]

theorem bit_of_mem (h : Writes m m' lo hi v) (hlo : lo ≤ x) (hhi : x < hi) : m'.bit x = v x := by
  rw [h x, if_pos ⟨hlo, hhi⟩]

theorem bit_of_lt (h : Writes m m' lo hi v) (hlo : x < lo) : m'.bit x = m.bit x := by
  rw [h x, if_neg (by omega)]

theorem bit_of_le (h : Writes m m' lo hi v) (hhi : hi ≤ x) : m'.bit x = m.bit x := by
  rw [h x, if_neg (by omega)]

theorem congr (h : Writes m m' lo hi v) (hv : ∀ x, lo ≤ x → x < hi → v' x = v x) :
    Writes m m' lo hi v' := by
  intro x
  rw [h x]
  by_cases hx : lo ≤ x ∧ x < hi
  · rw [if_pos hx, if_pos hx, hv x hx.1 hx.2]
  · rw [if_neg hx, if_neg hx]

theorem append (h : Writes m m1 lo mid v) (h' : Writes m1 m2 mid hi v) (hlo : lo ≤ mid)
    (hhi : mid ≤ hi) : Writes m m2 lo hi v := by
  intro x
  rw [h' x]
  by_cases hx : mid ≤ x ∧ x < hi
  · rw [if_pos hx, if_pos ⟨Nat.le_trans hlo hx.1, hx.2⟩]
  · rw [if_neg hx, h x]
    by_cases hx' : lo ≤ x ∧ x < mid
    · rw [if_pos hx', if_pos ⟨hx'.1, Nat.lt_of_lt_of_le hx'.2 hhi⟩]
    · rw [if_neg hx', if_neg (by omega)]

theorem prepend (h : Writes m m1 mid hi v) (h' : Writes m1 m2 lo mid v) (hlo : lo ≤ mid)
    (hhi : mid ≤ hi) : Writes m m2 lo hi v := by
  intro x
  rw [h' x]
  by_cases hx : lo ≤ x ∧ x < mid
  · rw [if_pos hx, if_pos ⟨hx.1, Nat.lt_of_lt_of_le hx.2 hhi⟩]
  · rw [if_neg hx, h x]
    by_cases hx' : mid ≤ x ∧ x < hi
    · rw [if_pos hx', if_pos ⟨Nat.le_trans hlo hx'.1, hx'.2⟩]
    · rw [if_neg hx', if_neg (by omega)]

theorem overwrite (h : Writes m m1 lo hi v) (h' : Writes m1 m2 lo hi v') : Writes m m2 lo hi v' := by
  intro x
  rw [h' x]
  by_cases hx : lo ≤ x ∧ x < hi
  · rw [if_pos hx, if_pos hx]
  · rw [if_neg hx, if_neg hx, h x, if_neg hx]

theorem of_eq (h : ∀ x, lo ≤ x → x < hi → v x = m.bit x) : Writes m m lo hi v := by
  intro x
  by_cases hx : lo ≤ x ∧ x < hi
  · rw [if_pos hx, h x hx.1 hx.2]
  · rw [if_neg hx]

theorem word_eq {a : Nat} (h : Writes m m' lo hi v) (ha : w * (a + 1) ≤ lo ∨ hi ≤ w * a) :
    m' a = m a := by
  refine word_ext fun i hi' => ?_
  rw [Nat.mul_succ] at ha
  rcases ha with ha | ha
  · exact h.bit_of_lt (by omega)
  · exact h.bit_of_le (by omega)

end Writes

end WordMem

end Hostboot.Lib
