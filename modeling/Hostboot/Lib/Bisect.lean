import Mathlib.Tactic.Common

/-!
# Halving search

`bisect right first range` looks at the middle of the positions from `first` to
`first + range` and goes on in the half that `right` chooses.  `probes` lists the
positions that it looks at.

Where `right` holds up to a position and not from there on, the search ends at
that position (`bisect_eq`).  For any other `right`, what it does is compared with
such a search: the two part at the first probe where they choose differently
(`bisect_lt_iff`).
-/

namespace Hostboot.Lib

/-- The position where the search ends. -/
def bisect (right : Nat → Bool) (first range : Nat) : Nat :=
  if range = 0 then first
  else if right (first + range / 2) then
    bisect right (first + range / 2 + 1) (range - (range / 2 + 1))
  else bisect right first (range / 2)
termination_by range
decreasing_by all_goals omega

/-- The positions that the search looks at. -/
def probes (right : Nat → Bool) (first range : Nat) : List Nat :=
  if range = 0 then []
  else if right (first + range / 2) then
    (first + range / 2) :: probes right (first + range / 2 + 1) (range - (range / 2 + 1))
  else (first + range / 2) :: probes right first (range / 2)
termination_by range
decreasing_by all_goals omega

theorem bisect_zero (right : Nat → Bool) (first : Nat) : bisect right first 0 = first := by
  rw [bisect, if_pos rfl]

theorem bisect_of_right {right : Nat → Bool} {first range : Nat} (hrange : range ≠ 0)
    (hright : right (first + range / 2) = true) :
    bisect right first range
      = bisect right (first + range / 2 + 1) (range - (range / 2 + 1)) := by
  rw [bisect, if_neg hrange, if_pos hright]

theorem bisect_of_left {right : Nat → Bool} {first range : Nat} (hrange : range ≠ 0)
    (hleft : right (first + range / 2) = false) :
    bisect right first range = bisect right first (range / 2) := by
  rw [bisect, if_neg hrange, if_neg (by simp [hleft])]

theorem bisect_mem (right : Nat → Bool) (first range : Nat) :
    first ≤ bisect right first range ∧ bisect right first range ≤ first + range := by
  fun_induction bisect right first range with
  | case1 first => omega
  | case2 first range hrange hright ih => omega
  | case3 first range hrange hleft ih => omega

theorem bisect_eq {right : Nat → Bool} {first range k : Nat} (hfirst : first ≤ k)
    (hlast : k ≤ first + range)
    (hright : ∀ i, first ≤ i → i < first + range → (right i = true ↔ i < k)) :
    bisect right first range = k := by
  fun_induction bisect right first range with
  | case1 first => omega
  | case2 first range hrange hgo ih =>
    have hmid := (hright (first + range / 2) (by omega) (by omega)).mp hgo
    exact ih (by omega) (by omega) fun i hi hi' => hright i (by omega) (by omega)
  | case3 first range hrange hgo ih =>
    have hmid : ¬ first + range / 2 < k := fun hlt =>
      hgo ((hright _ (by omega) (by omega)).mpr hlt)
    exact ih hfirst (by omega) fun i hi hi' => hright i hi (by omega)

/-- A search by `right` ends before `k` if and only if, where it first chooses
differently from a search for `k`, it looks at a position before `k`. -/
theorem bisect_lt_iff {right good : Nat → Bool} {first range k : Nat} (hfirst : first ≤ k)
    (hlast : k ≤ first + range)
    (hgood : ∀ i, first ≤ i → i < first + range → (good i = true ↔ i < k)) :
    bisect right first range < k ↔
      (((probes good first range).find? fun i => right i != good i).any good) = true := by
  fun_induction probes good first range with
  | case1 first =>
    rw [bisect_zero]
    simp only [List.find?_nil, Option.any_none, Bool.false_eq_true, iff_false]
    omega
  | case2 first range hrange hgo ih =>
    have hmid := (hgood (first + range / 2) (by omega) (by omega)).mp hgo
    cases hright : right (first + range / 2) with
    | true =>
      rw [bisect_of_right hrange hright, List.find?_cons, hright, hgo]
      exact ih (by omega) (by omega) fun i hi hi' => hgood i (by omega) (by omega)
    | false =>
      -- The search stays before the probe, which is before `k`.
      rw [bisect_of_left hrange hright, List.find?_cons, hright, hgo]
      have hend := (bisect_mem right first (range / 2)).2
      simp only [Bool.false_bne, Option.any_some, hgo, iff_true]
      omega
  | case3 first range hrange hgo ih =>
    have hgo' : good (first + range / 2) = false := Bool.eq_false_iff.mpr hgo
    have hmid : ¬ first + range / 2 < k := fun hlt =>
      hgo ((hgood _ (by omega) (by omega)).mpr hlt)
    cases hright : right (first + range / 2) with
    | true =>
      -- The search stays behind the probe, which is not before `k`.
      rw [bisect_of_right hrange hright, List.find?_cons, hright, hgo']
      have hend := (bisect_mem right (first + range / 2 + 1) (range - (range / 2 + 1))).1
      simp only [Bool.true_bne, Bool.not_false, Option.any_some, hgo', Bool.false_eq_true,
        iff_false]
      omega
    | false =>
      rw [bisect_of_left hrange hright, List.find?_cons, hright, hgo']
      exact ih hfirst (by omega) fun i hi hi' => hgood i hi (by omega)

end Hostboot.Lib
