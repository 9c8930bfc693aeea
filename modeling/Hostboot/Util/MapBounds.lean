import Hostboot.Util.StlMap

/-!
# Bounds, ranges and `at` of a map

`Map::upper_bound`, `Map::equal_range` and `Map::at` all go through
`lower_bound_by_value` of the tree.  `upper_bound_by_value`, which the tree also
has, is called by none of them.

So the upper bound of a key that is in the map is the key itself, and the range
of that key is empty; and `at` of a key that is not in the map gives a reference
to the value of the next greater key, as long as there is one.  The module says
exactly when the three are right.
-/

namespace Hostboot.Util.StlMap

open Hostboot.Lib Hostboot.Lib.LinkedTree Hostboot.Util.SplayTree

universe u

variable {ι α K V : Type u} [DecidableEq ι] [DecidableEq α]

/-- `upper_bound(k)` is the iterator to the first entry behind `k`. -/
def UpperBoundRight (s : System ι α K V) (m : ι → OrderedMap K V) (i : ι) (k : K) : Prop :=
  ∃ s' n, upper_bound s i k = some (s', n) ∧ n.map s'.data = (m i).upperBound k

/-- A loop over `equal_range(k)` sees exactly the entries with the key. -/
def EqualRangeRight (s : System ι α K V) (m : ι → OrderedMap K V) (i : ι) (k : K) : Prop :=
  ∃ s' first last, equal_range s i k = some (s', first, last) ∧
    between s' i last (s'.tree i).fuel first =
      some ((m i).entries.filter fun e => equiv (m i).comp k e.1)

/-- `at(k)` gives the value of the key, or fails its assertion when the key is
not there. -/
def AtRight (s : System ι α K V) (m : ι → OrderedMap K V) (i : ι) (k : K) : Prop :=
  ∃ s', atKey s i k = some (s', match (m i).find k with
    | some e => .second e.2
    | none => .crit_assert)

variable {s : System ι α K V} {m : ι → OrderedMap K V} {i : ι} {k : K}

theorem upper_bound_spec {ls : ι → List α} (h : RefinesBy s m ls) (i : ι) (k : K) :
    ∃ s', upper_bound s i k = some (s', (ls i).find? fun a => !(m i).comp (s.data a).1 k) ∧
      RefinesBy s' m ls ∧ s'.data = s.data :=
  have ⟨s', hlower, href, hdata, _⟩ := h.lower_bound i k
  ⟨s', hlower, href, hdata⟩

theorem equal_range_spec {ls : ι → List α} (h : RefinesBy s m ls) (i : ι) (k : K) :
    ∃ s' n, equal_range s i k = some (s', n, n) ∧ RefinesBy s' m ls := by
  obtain ⟨s1, hlower, h1, hdata1, -⟩ := h.lower_bound i k
  obtain ⟨s', hupper, h', -⟩ := upper_bound_spec h1 i k
  rw [hdata1] at hupper
  refine ⟨s', (ls i).find? fun a => !(m i).comp (s.data a).1 k, ?_, h'⟩
  simp only [equal_range, hlower, hupper, Option.bind_eq_bind, Option.bind_some]

omit [DecidableEq ι] in
theorem between_self (s : System ι α K V) (i : ι) (fuel : Nat) (it : Option α) :
    between s i it fuel it = some [] := by
  cases fuel <;> cases it <;> simp [between]

theorem upperBoundRight_iff (h : Refines s m) : UpperBoundRight s m i k ↔ (m i).find k = none := by
  obtain ⟨ls, h⟩ := h
  obtain ⟨s', hupper, -, hdata⟩ := upper_bound_spec h i k
  obtain ⟨-, -, -, -, hn⟩ := h.lower_bound i k
  obtain ⟨xs, mid, ys, hsplit, hdiv, -⟩ := (m i).exists_divides k
  have hright : UpperBoundRight s m i k ↔ (m i).lowerBound k = (m i).upperBound k := by
    constructor
    · rintro ⟨s2, n, hcall, heq⟩
      rw [hupper, Option.some.injEq, Prod.mk.injEq] at hcall
      obtain ⟨rfl, rfl⟩ := hcall
      rw [← hn, ← heq, hdata]
    · intro heq
      exact ⟨s', _, hupper, by rw [hdata, hn, heq]⟩
  rw [hright, OrderedMap.lowerBound_of_divides hsplit hdiv,
    OrderedMap.upperBound_of_divides hsplit hdiv, OrderedMap.find_of_divides hsplit hdiv]
  cases mid with
  | nil => simp
  | cons e mid =>
    -- The entry with the key is not behind the key.
    refine ⟨fun heq => ?_, fun hnone => absurd hnone (by simp)⟩
    have he : e ∈ ys := List.mem_of_mem_head? (by rw [← heq]; rfl)
    have hgt := hdiv.gt e he
    have hequiv := (equiv_iff.mp (hdiv.eq e List.mem_cons_self)).1
    exact absurd hgt (by simp [hequiv])

theorem equalRangeRight_iff (h : Refines s m) :
    EqualRangeRight s m i k ↔ (m i).find k = none := by
  obtain ⟨ls, h⟩ := h
  obtain ⟨s', n, hrange, -⟩ := equal_range_spec h i k
  have hright : EqualRangeRight s m i k ↔
      (m i).entries.filter (fun e => equiv (m i).comp k e.1) = [] := by
    constructor
    · rintro ⟨s2, first, last, hcall, heq⟩
      rw [hrange, Option.some.injEq, Prod.mk.injEq, Prod.mk.injEq] at hcall
      obtain ⟨rfl, rfl, rfl⟩ := hcall
      rw [between_self] at heq
      exact (Option.some.inj heq).symm
    · intro hnil
      exact ⟨s', n, n, hrange, by rw [between_self, hnil]⟩
  rw [hright, List.filter_eq_nil_iff, OrderedMap.find, List.find?_eq_none]

/-- The upper bound of a key is the least greater entry, and its range has
exactly the entries with the key, if and only if the key is not in the map. -/
theorem upper_bound_equal_range_iff (h : Refines s m) (i : ι) (k : K) :
    UpperBoundRight s m i k ∧ EqualRangeRight s m i k ↔ (m i).find k = none := by
  rw [upperBoundRight_iff h, equalRangeRight_iff h, and_self_iff]

theorem upper_bound_equal_range_iff_sample :
    UpperBoundRight sample sampleMaps false 2 ∧ EqualRangeRight sample sampleMaps false 2 ↔
      (sampleMaps false).find 2 = none :=
  upper_bound_equal_range_iff sample_refines false 2

/-- The upper bound of the key 1 of a map with the keys 1 and 3 is the key 1,
and the range of that key is empty. -/
theorem upper_bound_of_present :
    Refines sample sampleMaps ∧
      ¬(UpperBoundRight sample sampleMaps false 1 ∧ EqualRangeRight sample sampleMaps false 1) := by
  refine ⟨sample_refines, fun h => ?_⟩
  obtain ⟨⟨s', n, hcall, heq⟩, -⟩ := h
  have hentry : (upper_bound sample false 1).map (fun r => r.2.map r.1.data) =
      some (some (1, 10)) := by decide +kernel
  have hupper : (sampleMaps false).upperBound 1 = some (3, 30) := by decide +kernel
  rw [hcall, Option.map_some, heq, hupper] at hentry
  exact absurd hentry (by decide)

/-- `at` is right if and only if the key is in the map or no greater key is. -/
theorem at_iff (h : Refines s m) (i : ι) (k : K) :
    AtRight s m i k ↔ (m i).find k ≠ none ∨ ∀ e ∈ (m i).entries, (m i).comp k e.1 = false := by
  obtain ⟨ls, h⟩ := h
  obtain ⟨s', hlower, -, hdata, hn⟩ := h.lower_bound i k
  obtain ⟨xs, mid, ys, hsplit, hdiv, -⟩ := (m i).exists_divides k
  have hresult : atKey s i k = some (s', match (m i).lowerBound k with
      | some e => .second e.2
      | none => .crit_assert) := by
    simp only [atKey, hlower, Option.bind_eq_bind, Option.bind_some]
    rw [← hn]
    cases (ls i).find? fun a => !(m i).comp (s.data a).1 k with
    | none => rfl
    | some n => simp [hdata]
  have hright : AtRight s m i k ↔
      (match (m i).lowerBound k with
        | some e => At.second e.2
        | none => .crit_assert) =
      match (m i).find k with
        | some e => At.second e.2
        | none => .crit_assert := by
    constructor
    · rintro ⟨s2, hcall⟩
      rw [hresult, Option.some.injEq, Prod.mk.injEq] at hcall
      exact hcall.2
    · intro heq
      exact ⟨s', by rw [hresult, heq]⟩
  have hgreater : (∀ e ∈ (m i).entries, (m i).comp k e.1 = false) ↔ ys = [] := by
    rw [← List.head?_eq_none_iff, ← OrderedMap.upperBound_of_divides hsplit hdiv,
      OrderedMap.upperBound, List.find?_eq_none]
    simp only [Bool.not_eq_true]
  rw [hright, hgreater, OrderedMap.lowerBound_of_divides hsplit hdiv,
    OrderedMap.find_of_divides hsplit hdiv]
  cases mid with
  | cons e mid => simp
  | nil => cases ys <;> simp

theorem at_iff_sample :
    AtRight sample sampleMaps false 3 ↔
      (sampleMaps false).find 3 ≠ none ∨
        ∀ e ∈ (sampleMaps false).entries, (sampleMaps false).comp 3 e.1 = false :=
  at_iff sample_refines false 3

/-- `at(2)` of a map with the keys 1 and 3 gives the value of the key 3. -/
theorem at_of_absent : Refines sample sampleMaps ∧ ¬AtRight sample sampleMaps false 2 := by
  refine ⟨sample_refines, fun h => ?_⟩
  obtain ⟨s', hcall⟩ := h
  have hvalue : (atKey sample false 2).map Prod.snd = some (.second 30) := by decide +kernel
  have hfind : (sampleMaps false).find 2 = none := by decide +kernel
  rw [hcall, hfind] at hvalue
  cases Option.some.inj hvalue

end Hostboot.Util.StlMap
