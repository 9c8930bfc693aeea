import Mathlib.Tactic.Common
import Mathlib.Algebra.Order.Group.Nat

/-!
# Machine words and page alignment

The kernel computes on 64-bit words.  A word is a `Nat` below `2 ^ 64`; where
a sum or a difference can leave that range the model writes `add64` and
`sub64`.  `PAGESIZE` and the alignment macros come from
`src/include/limits.h` and `src/include/util/align.H`.
-/

namespace Hostboot

/-- `PAGESIZE`: 4 KB. -/
def PAGESIZE : Nat := 4096

/-- The sum of two 64-bit words. -/
def add64 (a b : Nat) : Nat := (a + b) % 2 ^ 64

/-- The difference of two 64-bit words. -/
def sub64 (a b : Nat) : Nat := (a + (2 ^ 64 - b)) % 2 ^ 64

theorem add64_of_lt {a b : Nat} (h : a + b < 2 ^ 64) : add64 a b = a + b :=
  Nat.mod_eq_of_lt h

theorem sub64_of_le {a b : Nat} (hb : b ≤ a) (ha : a < 2 ^ 64) : sub64 a b = a - b := by
  unfold sub64
  rw [show a + (2 ^ 64 - b) = (a - b) + 2 ^ 64 by omega, Nat.add_mod_right]
  exact Nat.mod_eq_of_lt (by omega)

/-- `ALIGN_PAGE`: the next page boundary at or above an address. -/
def alignPage (u : Nat) : Nat := (u + (PAGESIZE - 1)) / PAGESIZE * PAGESIZE

/-- `ALIGN_PAGE_DOWN`: the page boundary at or below an address. -/
def alignPageDown (u : Nat) : Nat := u - u % PAGESIZE

theorem alignPage_of_aligned {u : Nat} (h : u % PAGESIZE = 0) : alignPage u = u := by
  unfold alignPage PAGESIZE at *
  omega

end Hostboot
