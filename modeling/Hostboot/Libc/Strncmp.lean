import Hostboot.Lib.Bytes
import Mathlib.Data.List.Lex

/-!
# `strncmp`

The comparison of `src/lib/string_utils.C`.  The loop looks at all characters but the
last one that it may look at; this one, and a terminator, are left to the three tests
behind the loop.  `char` is unsigned on the processors the code runs on.

The order that the result should show is the lexicographic one of `chars`, the
characters in front of the terminator, at most `n` of them.  The last of the three
tests answers 1 whenever the first string has not ended, so the result is wrong when
the strings differ at the last character only and the first is the smaller one
(`SmallerAtLast`).
-/

namespace Hostboot.Libc

open Hostboot.Lib

/-- The tests behind the loop. -/
def strncmpEnd (m : Mem) (a b : Nat) : Int :=
  if m a = m b then 0
  else if m a = 0 then -1
  else 1

/-- The loop and what is behind it, where `l` is `n + 1` more than `a - begin`. -/
def strncmpLoop (m : Mem) (a b : Nat) : Nat → Int
  | 0 => strncmpEnd m a b
  | n + 1 =>
    if m a ≠ 0 ∧ m b ≠ 0 then
      if m a = m b then strncmpLoop m (a + 1) (b + 1) n
      else if m a > m b then 1 else -1
    else strncmpEnd m a b

def strncmp (m : Mem) (a b l : Nat) : Int :=
  if l = 0 then 0 else strncmpLoop m a b (l - 1)

/-! ## The order -/

/-- The first `n` characters of a string. -/
def chars (m : Mem) (a : Nat) : Nat → List UInt8
  | 0 => []
  | n + 1 => if m a = 0 then [] else m a :: chars m (a + 1) n

/-- A number that shows by its sign how two strings compare. -/
structure Shows (r : Int) (x y : List UInt8) : Prop where
  neg : r < 0 ↔ x < y
  zero : r = 0 ↔ x = y
  pos : 0 < r ↔ y < x

/-- The strings agree in front of the `n`-th character, neither ends there, and the
`n`-th is smaller in the first string. -/
structure SmallerAtLast (m : Mem) (a b n : Nat) : Prop where
  some : 0 < n
  agree : ∀ i < n - 1, m (a + i) = m (b + i) ∧ m (a + i) ≠ 0
  last : m (a + (n - 1)) ≠ 0
  smaller : m (a + (n - 1)) < m (b + (n - 1))

variable {m : Mem} {a b n : Nat} {x y : List UInt8} {c e : UInt8} {r : Int}

theorem Shows.refl (x : List UInt8) : Shows 0 x x :=
  ⟨by simp [List.lt_irrefl], by simp, by simp [List.lt_irrefl]⟩

theorem Shows.of_lt (h : x < y) : Shows (-1) x y := by
  have hne : x ≠ y := by
    rintro rfl
    exact List.lt_irrefl x h
  exact ⟨by simp [h], by simp [hne], by simp [List.lt_asymm h]⟩

theorem Shows.of_gt (h : y < x) : Shows 1 x y := by
  have hne : x ≠ y := by
    rintro rfl
    exact List.lt_irrefl x h
  exact ⟨by simp [List.lt_asymm h], by simp [hne], by simp [h]⟩

theorem not_shows_of_lt (h : x < y) : ¬ Shows 1 x y := fun hs => absurd (hs.neg.mpr h) (by decide)

theorem shows_cons_iff : Shows r (c :: x) (c :: y) ↔ Shows r x y := by
  have hlt : ∀ u v : List UInt8, c :: u < c :: v ↔ u < v := fun u v => by
    simp
  constructor
  · intro h
    exact ⟨h.neg.trans (hlt x y), by simpa using h.zero, h.pos.trans (hlt y x)⟩
  · intro h
    exact ⟨h.neg.trans (hlt x y).symm, by simpa using h.zero, h.pos.trans (hlt y x).symm⟩

theorem cons_lt_of_lt (h : c < e) : c :: x < e :: y :=
  List.cons_lt_cons_iff.mpr (Or.inl h)

theorem smallerAtLast_succ (ha : m a ≠ 0) (heq : m a = m b) :
    SmallerAtLast m a b (n + 2) ↔ SmallerAtLast m (a + 1) (b + 1) (n + 1) := by
  constructor
  · rintro ⟨-, hagree, hlast, hsmall⟩
    refine ⟨Nat.succ_pos n, fun i hi => ?_, ?_, ?_⟩
    · rw [Nat.add_assoc a, Nat.add_assoc b, Nat.add_comm 1]
      exact hagree (i + 1) (by omega)
    · rwa [Nat.add_assoc a, Nat.add_comm 1]
    · rwa [Nat.add_assoc a, Nat.add_assoc b, Nat.add_comm 1]
  · rintro ⟨-, hagree, hlast, hsmall⟩
    refine ⟨Nat.succ_pos (n + 1), fun i hi => ?_, ?_, ?_⟩
    · match i with
      | 0 => exact ⟨heq, ha⟩
      | i + 1 =>
        rw [Nat.add_comm i, ← Nat.add_assoc, ← Nat.add_assoc]
        exact hagree i (by omega)
    · rwa [Nat.add_assoc a, Nat.add_comm 1] at hlast
    · rwa [Nat.add_assoc a, Nat.add_assoc b, Nat.add_comm 1] at hsmall

/-! ## The tests behind the loop -/

theorem strncmpEnd_ended (h : m a = 0 ∨ m b = 0) :
    Shows (strncmpEnd m a b) (chars m a (n + 1)) (chars m b (n + 1)) := by
  unfold strncmpEnd chars
  by_cases ha : m a = 0
  · by_cases hb : m b = 0
    · rw [if_pos (ha.trans hb.symm), if_pos ha, if_pos hb]
      exact Shows.refl []
    · rw [if_neg fun heq => hb (heq.symm.trans ha), if_pos ha, if_pos ha, if_neg hb]
      exact Shows.of_lt (List.nil_lt_cons _ _)
  · have hb : m b = 0 := h.resolve_left ha
    rw [if_neg fun heq => ha (heq.trans hb), if_neg ha, if_neg ha, if_pos hb]
    exact Shows.of_gt (List.nil_lt_cons _ _)

/-- At the last character the tests are right unless the first string has the
smaller one. -/
theorem strncmpEnd_last_iff :
    Shows (strncmpEnd m a b) (chars m a 1) (chars m b 1) ↔ ¬ SmallerAtLast m a b 1 := by
  have hsmaller : SmallerAtLast m a b 1 ↔ m a ≠ 0 ∧ m a < m b := by
    constructor
    · intro h
      exact ⟨h.last, h.smaller⟩
    · rintro ⟨hne, hlt⟩
      exact ⟨Nat.one_pos, fun i hi => absurd hi (Nat.not_lt_zero i), hne, hlt⟩
  rw [hsmaller]
  by_cases hended : m a = 0 ∨ m b = 0
  · refine iff_of_true (strncmpEnd_ended hended) ?_
    rintro ⟨hne, hlt⟩
    rw [hended.resolve_left hne] at hlt
    exact absurd hlt (by simp)
  · obtain ⟨ha, hb⟩ := not_or.mp hended
    simp only [strncmpEnd, chars, if_neg ha, if_neg hb]
    by_cases heq : m a = m b
    · rw [if_pos heq, heq]
      exact iff_of_true (Shows.refl _) fun h => absurd h.2 (UInt8.lt_irrefl _)
    · rw [if_neg heq]
      rcases UInt8.lt_or_lt_of_ne heq with hlt | hgt
      · exact iff_of_false (not_shows_of_lt (cons_lt_of_lt hlt)) fun h => h ⟨ha, hlt⟩
      · refine iff_of_true (Shows.of_gt (cons_lt_of_lt hgt)) fun h => ?_
        exact absurd h.2 (UInt8.lt_asymm hgt)

/-! ## `strncmp` -/

theorem strncmpLoop_iff (m : Mem) (a b n : Nat) :
    Shows (strncmpLoop m a b n) (chars m a (n + 1)) (chars m b (n + 1)) ↔
      ¬ SmallerAtLast m a b (n + 1) := by
  induction n generalizing a b with
  | zero => exact strncmpEnd_last_iff
  | succ n ih =>
    by_cases hboth : m a ≠ 0 ∧ m b ≠ 0
    · obtain ⟨ha, hb⟩ := hboth
      have hcharsa : chars m a (n + 2) = m a :: chars m (a + 1) (n + 1) := if_neg ha
      have hcharsb : chars m b (n + 2) = m b :: chars m (b + 1) (n + 1) := if_neg hb
      rw [strncmpLoop, if_pos ⟨ha, hb⟩, hcharsa, hcharsb]
      by_cases heq : m a = m b
      · rw [if_pos heq, smallerAtLast_succ ha heq, ← ih, ← heq]
        exact shows_cons_iff
      · -- a difference in front of the last character is compared by the loop
        have hdiffer : ¬ SmallerAtLast m a b (n + 2) := fun h => heq (h.agree 0 (Nat.succ_pos n)).1
        rw [if_neg heq]
        refine iff_of_true ?_ hdiffer
        by_cases hgt : m a > m b
        · rw [if_pos hgt]
          exact Shows.of_gt (cons_lt_of_lt hgt)
        · rw [if_neg hgt]
          exact Shows.of_lt (cons_lt_of_lt ((UInt8.lt_or_lt_of_ne heq).resolve_right hgt))
    · have hended : m a = 0 ∨ m b = 0 := by
        rcases not_and_or.mp hboth with ha | hb
        · exact Or.inl (not_not.mp ha)
        · exact Or.inr (not_not.mp hb)
      rw [strncmpLoop, if_neg hboth]
      refine iff_of_true (strncmpEnd_ended hended) fun h => ?_
      have hfirst := h.agree 0 (Nat.succ_pos n)
      rcases hended with ha | hb
      · exact hfirst.2 ha
      · exact hfirst.2 (hfirst.1.trans hb)

/-- The result of `strncmp` shows how the first `n` characters compare, unless the
strings differ at the `n`-th character only and the first is the smaller one. -/
theorem strncmp_iff (m : Mem) (a b n : Nat) :
    Shows (strncmp m a b n) (chars m a n) (chars m b n) ↔ ¬ SmallerAtLast m a b n := by
  unfold strncmp
  cases n with
  | zero =>
    rw [if_pos rfl]
    exact iff_of_true (Shows.refl []) fun h => absurd h.some (Nat.lt_irrefl 0)
  | succ n =>
    rw [if_neg (Nat.succ_ne_zero n), Nat.add_sub_cancel]
    exact strncmpLoop_iff m a b n

/-- The strings "a" and "b", compared by one character: each counts as greater than
the other. -/
theorem strncmp_not_antisymmetric :
    let m : Mem := fun x => if x = 0 then 97 else if x = 8 then 98 else 0
    strncmp m 0 8 1 = 1 ∧ strncmp m 8 0 1 = 1 ∧
      ¬ Shows (strncmp m 0 8 1) (chars m 0 1) (chars m 8 1) := by
  refine ⟨by decide, by decide, fun h => ?_⟩
  exact absurd (h.neg.mpr (by decide)) (by decide)

end Hostboot.Libc
