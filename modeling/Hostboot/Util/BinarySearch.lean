import Hostboot.Lib.Bisect
import Hostboot.Lib.WeakOrder
import Mathlib.Data.List.Basic

/-!
# `lower_bound`, `upper_bound` and `binary_search`

`src/include/algorithm` has each of the three functions twice: for `operator<` and
for a comparison `comp` that the caller passes.  All the bounds are one loop, which
differs in its test of the element in the middle.  A range is the list of its
elements and an iterator is a position in it; to dereference a position outside the
list has no result.

Two of the versions with `comp` are not what the others are:

* `upper_bound` tests `!comp(*it, value)` where its sibling tests `!(value < *it)`;
* `binary_search` calls the `lower_bound` of `operator<`.
-/

namespace Hostboot.Util.BinarySearch

open Hostboot.Lib List

variable {T : Type*}

/-! ## The functions of the source -/

/-- The loop of the bounds.  `right` is the test of its `if`. -/
def bound (right : T → Bool) (a : List T) (first range : Nat) : Option Nat :=
  if range = 0 then some first
  else
    let num := range / 2
    match a[first + num]? with
    | none => none
    | some it =>
      if right it then bound right a (first + num + 1) (range - (num + 1))
      else bound right a first num
termination_by range
decreasing_by all_goals omega

/-- `lower_bound` with a comparison, and with `operator<` as the comparison. -/
def lower_bound (comp : T → T → Bool) (a : List T) (value : T) : Option Nat :=
  bound (fun it => comp it value) a 0 a.length

/-- `upper_bound` with a comparison. -/
def upper_bound (comp : T → T → Bool) (a : List T) (value : T) : Option Nat :=
  bound (fun it => !comp it value) a 0 a.length

/-- `binary_search` with a comparison.  `lt` is `operator<`. -/
def binary_search (lt comp : T → T → Bool) (a : List T) (value : T) : Option Bool := do
  let first ← lower_bound lt a value
  if first = a.length then some false else (a[first]?).map fun x => !comp value x

/-! ## Sorted ranges -/

/-- The test holds of the element at the position. -/
def holdsAt (a : List T) (right : T → Bool) (i : Nat) : Bool := (a[i]?).any right

theorem holdsAt_iff {a : List T} {right : T → Bool} {i : Nat} {x : T} (hx : a[i]? = some x) :
    holdsAt a right i = right x := by
  rw [holdsAt, hx, Option.any_some]

theorem bound_eq {right : T → Bool} {a : List T} {first range : Nat}
    (hlast : first + range ≤ a.length) :
    bound right a first range = some (bisect (holdsAt a right) first range) := by
  fun_induction bisect (holdsAt a right) first range with
  | case1 first => rw [bound, if_pos rfl]
  | case2 first range hrange hgo ih =>
    have hx : a[first + range / 2]? = some a[first + range / 2] :=
      getElem?_eq_getElem (by omega)
    rw [holdsAt_iff hx] at hgo
    rw [bound, if_neg hrange]
    simp only [hx, hgo, if_true]
    exact ih (by omega)
  | case3 first range hrange hgo ih =>
    have hx : a[first + range / 2]? = some a[first + range / 2] :=
      getElem?_eq_getElem (by omega)
    rw [holdsAt_iff hx] at hgo
    rw [bound, if_neg hrange]
    simp only [hx, hgo, Bool.false_eq_true, if_false]
    exact ih (by omega)

/-- The range is sorted: no element is before one that stands before it. -/
def Sorted (comp : T → T → Bool) (a : List T) : Prop :=
  a.Pairwise fun x y => comp y x = false

/-- The first position with an element behind `value`, or the end. -/
def upper (comp : T → T → Bool) (a : List T) (value : T) : Nat :=
  a.findIdx fun x => comp value x

/-- A test that holds of every element in front of one it holds of, holds up to the
first element that it does not hold of. -/
theorem front_iff {right : T → Bool} {a : List T}
    (hfront : a.Pairwise fun x y => right y = true → right x = true) {i : Nat} {x : T}
    (hx : a[i]? = some x) : right x = true ↔ i < a.findIdx fun x => !right x := by
  obtain ⟨hi, rfl⟩ := List.getElem?_eq_some_iff.mp hx
  constructor
  · intro hright
    by_contra hge
    have hlt : (a.findIdx fun x => !right x) < a.length := by omega
    have hfound : (!right a[a.findIdx fun x => !right x]) = true :=
      findIdx_getElem (w := hlt)
    have hholds : right a[a.findIdx fun x => !right x] = true := by
      rcases Nat.lt_or_eq_of_le (Nat.le_of_not_lt hge) with hlt' | heq
      · exact pairwise_iff_getElem.mp hfront _ _ hlt hi hlt' hright
      · simpa only [heq] using hright
    rw [hholds] at hfound
    exact Bool.false_ne_true hfound
  · intro hlt
    have hnot := not_of_lt_findIdx hlt
    rwa [Bool.not_eq_false'] at hnot

section Sorted

variable {comp : T → T → Bool} {a : List T} (hc : StrictWeak comp) (hs : Sorted comp a)
include hc hs

theorem Sorted.lt_value (value : T) :
    a.Pairwise fun x y => comp y value = true → comp x value = true :=
  hs.imp fun hyx hy => hc.lt_of_not_lt_of_lt hyx hy

theorem Sorted.not_value_lt (value : T) :
    a.Pairwise fun x y => (!comp value y) = true → (!comp value x) = true := by
  refine hs.imp fun {x y} hyx hy => ?_
  rw [Bool.not_eq_true'] at hy ⊢
  rw [Bool.eq_false_iff]
  intro hx
  exact absurd (hc.lt_of_lt_of_not_lt hx hyx) (by simp [hy])

theorem not_behind_iff {value : T} {i : Nat} {x : T} (hx : a[i]? = some x) :
    (!comp value x) = true ↔ i < upper comp a value := by
  have hfront := front_iff (Sorted.not_value_lt hc hs value) hx
  simp only [Bool.not_not] at hfront
  exact hfront

theorem holdsAt_not_behind_iff (value : T) {i : Nat} (hi : i < a.length) :
    holdsAt a (fun x => !comp value x) i = true ↔ i < upper comp a value := by
  have hx : a[i]? = some a[i] := getElem?_eq_getElem hi
  rw [holdsAt_iff hx]
  exact not_behind_iff hc hs hx

end Sorted

/-! ## What the functions return -/

/-- `upper_bound` returns the first position with an element behind `value`. -/
def UpperBoundRight (comp : T → T → Bool) (a : List T) (value : T) : Prop :=
  upper_bound comp a value = some (upper comp a value)

/-- `binary_search` returns whether an element is `equiv` to `value`. -/
def BinarySearchRight (lt comp : T → T → Bool) (a : List T) (value : T) : Prop :=
  binary_search lt comp a value = some (a.any fun x => equiv comp value x)

/-- The position where a search by `lt` parts from a search for the end of the
elements that are not behind `value`. -/
def parting (lt comp : T → T → Bool) (a : List T) (value : T) : Option Nat :=
  (probes (holdsAt a fun x => !comp value x) 0 a.length).find? fun i =>
    holdsAt a (fun x => lt x value) i != holdsAt a (fun x => !comp value x) i

section Sorted

variable {comp : T → T → Bool} {a : List T} (hc : StrictWeak comp) (hs : Sorted comp a)
  (value : T)
include hc hs

/-- The version with a comparison runs to one of the two ends, and which one depends
on the element in the middle. -/
theorem upper_bound_eq {x : T} (hx : a[a.length / 2]? = some x) :
    upper_bound comp a value = some (if comp x value then 0 else a.length) := by
  obtain ⟨hmid, -⟩ := List.getElem?_eq_some_iff.mp hx
  have hlt : ∀ {i : Nat} {y : T}, a[i]? = some y →
      (comp y value = true ↔ i < a.findIdx fun x => !comp x value) := fun hy =>
    front_iff (Sorted.lt_value hc hs value) hy
  have hxmid := hlt hx
  rw [upper_bound, bound_eq (by omega)]
  congr 1
  cases hbelow : comp x value with
  | true =>
    have hleft : holdsAt a (fun it => !comp it value) (0 + a.length / 2) = false := by
      rw [Nat.zero_add, holdsAt_iff hx, hbelow]
      rfl
    rw [bisect_of_left (by omega) hleft, if_pos rfl]
    refine bisect_eq (Nat.le_refl 0) (Nat.zero_le _) fun i _ hi => ?_
    have hy : a[i]? = some a[i] := getElem?_eq_getElem (by omega)
    have hlow := hxmid.mp hbelow
    have hyi := (hlt hy).mpr (by omega)
    rw [holdsAt_iff hy, hyi]
    simp
  | false =>
    have hright : holdsAt a (fun it => !comp it value) (0 + a.length / 2) = true := by
      rw [Nat.zero_add, holdsAt_iff hx, hbelow]
      rfl
    rw [bisect_of_right (by omega) hright, if_neg Bool.false_ne_true]
    refine bisect_eq (by omega) (by omega) fun i hi hi' => ?_
    have hy : a[i]? = some a[i] := getElem?_eq_getElem (by omega)
    have hyi : comp a[i] value = false := by
      rw [Bool.eq_false_iff]
      intro htrue
      have hlow := (hlt hy).mp htrue
      rw [hbelow] at hxmid
      exact Bool.false_ne_true (hxmid.mpr (by omega))
    rw [holdsAt_iff hy, hyi]
    simp only [Bool.not_false, true_iff]
    omega

theorem upperBoundRight_iff :
    UpperBoundRight comp a value ↔ (∀ x ∈ a, comp value x = false) ∧
      ∀ x, a[a.length / 2]? = some x → comp x value = false := by
  rcases Nat.eq_zero_or_pos a.length with hnil | hpos
  · obtain rfl := length_eq_zero_iff.mp hnil
    have hright : UpperBoundRight comp [] value := by
      rw [UpperBoundRight, upper_bound, bound, if_pos length_nil]
      rfl
    exact iff_of_true hright ⟨fun x hx => absurd hx not_mem_nil,
      fun x hx => nomatch hx⟩
  have hmid : a.length / 2 < a.length := by omega
  have hx : a[a.length / 2]? = some a[a.length / 2] := getElem?_eq_getElem hmid
  rw [UpperBoundRight, upper_bound_eq hc hs value hx]
  cases hbelow : comp a[a.length / 2] value with
  | true =>
    -- The element in the middle is below, so the first one behind is not the first.
    have hupper : a.length / 2 < upper comp a value := by
      refine (not_behind_iff hc hs hx).mp ?_
      rw [hc.asymm hbelow]
      rfl
    refine iff_of_false (fun h => ?_) (fun h => ?_)
    · have h0 : 0 = upper comp a value := Option.some.inj h
      omega
    · exact Bool.false_ne_true ((h.2 _ hx).symm.trans hbelow)
  | false =>
    rw [if_neg Bool.false_ne_true, Option.some.injEq, eq_comm, upper, findIdx_eq_length]
    refine ⟨fun h => ⟨h, fun y hy => ?_⟩, fun h => h.1⟩
    obtain rfl := Option.some.inj (hx.symm.trans hy)
    exact hbelow

/-- Whatever `lt` is, `binary_search` says whether the search by `lt` ends before the
elements behind `value`. -/
theorem binary_search_eq (lt : T → T → Bool) :
    binary_search lt comp a value =
      some (decide (bisect (holdsAt a fun x => lt x value) 0 a.length < upper comp a value)) := by
  have hend := (bisect_mem (holdsAt a fun x => lt x value) 0 a.length).2
  rw [binary_search, lower_bound, bound_eq (by omega), Option.bind_eq_bind, Option.bind_some]
  have hupper : upper comp a value ≤ a.length := findIdx_le_length
  by_cases hp : bisect (holdsAt a fun x => lt x value) 0 a.length = a.length
  · rw [if_pos hp, decide_eq_false (by omega)]
  · have hx : a[bisect (holdsAt a fun x => lt x value) 0 a.length]? = some _ :=
      getElem?_eq_getElem (by omega)
    rw [if_neg hp, hx, Option.map_some]
    congr 1
    rw [Bool.eq_iff_iff, decide_eq_true_eq]
    exact not_behind_iff hc hs hx

theorem binarySearchRight_iff (lt : T → T → Bool) :
    BinarySearchRight lt comp a value ↔
      ((parting lt comp a value).any (holdsAt a fun x => !comp value x) = true ↔
        ∃ x ∈ a, equiv comp value x = true) := by
  have hupper : upper comp a value ≤ 0 + a.length := by
    rw [Nat.zero_add]
    exact findIdx_le_length
  rw [BinarySearchRight, binary_search_eq hc hs, Option.some.injEq, Bool.eq_iff_iff,
    decide_eq_true_eq, any_eq_true]
  rw [bisect_lt_iff (Nat.zero_le _) hupper fun i _ hi =>
    holdsAt_not_behind_iff hc hs value (by omega)]
  rfl

/-- `upper_bound` with a comparison is right where no element is behind `value` and the
one in the middle is not before it.  `binary_search` with a comparison is right where
the position at which the search by `operator<` parts from the one it should be is
not behind `value`, if an element is `equiv` to `value`, and otherwise where there
is no such position or it is behind `value`. -/
theorem bounds_iff (lt : T → T → Bool) :
    (UpperBoundRight comp a value ↔ (∀ x ∈ a, comp value x = false) ∧
      ∀ x, a[a.length / 2]? = some x → comp x value = false) ∧
    (BinarySearchRight lt comp a value ↔
      ((parting lt comp a value).any (holdsAt a fun x => !comp value x) = true ↔
        ∃ x ∈ a, equiv comp value x = true)) :=
  ⟨upperBoundRight_iff hc hs value, binarySearchRight_iff hc hs value lt⟩

end Sorted

/-- Numbers, the greater ones first. -/
def descending (x y : Nat) : Bool := decide (y < x)

theorem descending_strictWeak : StrictWeak descending where
  irrefl := by simp [descending]
  trans := by
    simp only [descending, decide_eq_true_eq]
    omega
  incomp_trans := by
    simp only [descending, decide_eq_false_iff_not]
    omega

theorem descending_sorted : Sorted descending [3, 2, 1] := by
  simp [Sorted, descending]

theorem bounds_iff_sample :
    (UpperBoundRight descending [3, 2, 1] 3 ↔ (∀ x ∈ [3, 2, 1], descending 3 x = false) ∧
      ∀ x, [3, 2, 1][[3, 2, 1].length / 2]? = some x → descending x 3 = false) ∧
    (BinarySearchRight (fun x y => decide (x < y)) descending [3, 2, 1] 3 ↔
      ((parting (fun x y => decide (x < y)) descending [3, 2, 1] 3).any
          (holdsAt [3, 2, 1] fun x => !descending 3 x) = true ↔
        ∃ x ∈ [3, 2, 1], equiv descending 3 x = true)) :=
  bounds_iff descending_strictWeak descending_sorted 3 _

/-- The first of three descending numbers: `upper_bound` returns the end, not the
position behind it, and `binary_search` does not find it. -/
theorem bounds_of_first :
    (upper_bound descending [3, 2, 1] 3 = some 3 ∧ upper descending [3, 2, 1] 3 = 1 ∧
      ¬ UpperBoundRight descending [3, 2, 1] 3) ∧
    (binary_search (fun x y => decide (x < y)) descending [3, 2, 1] 3 = some false ∧
      ¬ BinarySearchRight (fun x y => decide (x < y)) descending [3, 2, 1] 3) := by
  have hupper : upper_bound descending [3, 2, 1] 3 = some 3 := by
    simp [upper_bound, bound, descending]
  have hsearch : binary_search (fun x y => decide (x < y)) descending [3, 2, 1] 3
      = some false := by
    simp [binary_search, lower_bound, bound]
  refine ⟨⟨hupper, by decide, ?_⟩, hsearch, ?_⟩
  · rw [UpperBoundRight, hupper]
    decide
  · rw [BinarySearchRight, hsearch]
    decide

end Hostboot.Util.BinarySearch
