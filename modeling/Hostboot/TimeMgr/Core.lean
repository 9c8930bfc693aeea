import Mathlib.Algebra.Group.Nat.Defs
import Mathlib.Data.Nat.Basic
import Mathlib.Tactic.Common

/-!
# Ticks and seconds

The conversions of `src/kernel/timemgr.C` between the time base and seconds, in 64 bits.
`convertSecToTicks` multiplies before it divides, so it is exact only for times of less than
about a year (`convertSecToTicks_of_lt`).
-/

namespace Hostboot.TimeMgr

/-- `TimeManager::iv_timebaseFreq`. -/
def iv_timebaseFreq : Nat := 512000000

def convertSecToTicks (i_sec i_nsec : Nat) : Nat :=
  let result := (i_sec * 1000000000 % 2 ^ 64 + i_nsec) % 2 ^ 64
  let result := result * (iv_timebaseFreq / 1000000) % 2 ^ 64
  result / 1000

/-- `convertTicksToSec`: the seconds and the nanoseconds. -/
def convertTicksToSec (i_ticks : Nat) : Nat × Nat :=
  let o_sec := i_ticks / iv_timebaseFreq
  (o_sec, (i_ticks - o_sec * iv_timebaseFreq) * 1000 / (iv_timebaseFreq / 1000000))

/-- The ticks of a time, without a bound. -/
def ticks (sec nsec : Nat) : Nat := (sec * 1000000000 + nsec) * 512 / 1000

theorem convertSecToTicks_of_lt {sec nsec : Nat} (h : (sec * 1000000000 + nsec) * 512 < 2 ^ 64) :
    convertSecToTicks sec nsec = ticks sec nsec := by
  have hsum : sec * 1000000000 + nsec < 2 ^ 64 :=
    Nat.lt_of_le_of_lt (Nat.le_mul_of_pos_right _ (by decide : 0 < 512)) h
  have hsec : sec * 1000000000 < 2 ^ 64 := Nat.lt_of_le_of_lt (Nat.le_add_right _ nsec) hsum
  have hfreq : iv_timebaseFreq / 1000000 = 512 := rfl
  unfold convertSecToTicks ticks
  dsimp only
  rw [hfreq, Nat.mod_eq_of_lt hsec, Nat.mod_eq_of_lt hsum, Nat.mod_eq_of_lt h]

end Hostboot.TimeMgr
