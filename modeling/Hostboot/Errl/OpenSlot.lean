import Hostboot.Errl.SlotStore

/-!
# The search for an open slot

`incrementPnorOpenSlot` should find an open slot whenever there is one, and the
first one behind the cursor.  It tells from the cursor whether it found one: a
search that comes back to its start has found none.  `searchRight_iff` says when
that is wrong, which is when the slot at the cursor is the only open one.
-/

namespace Hostboot.Errl

open ErrlManager List

/-- The slots in cyclic order behind the cursor, the slot at the cursor last. -/
def slotsBehind (m : ErrlManager) : List Nat :=
  (List.range m.ivMaxErrlInPnor).map fun k => (m.ivPnorOpenSlot + 1 + k) % m.ivMaxErrlInPnor

/-- The search ends, it finds a slot exactly when one is open, and then it is the first one
behind the cursor. -/
def SearchRight (m : ErrlManager) : Prop :=
  ∃ i, m.incrementPnorOpenSlot = some i ∧
    (i ≠ m.ivPnorOpenSlot ↔ ∃ j < m.ivMaxErrlInPnor, m.isOpen j = true) ∧
    (i ≠ m.ivPnorOpenSlot → (slotsBehind m).find? m.isOpen = some i)

variable {m : ErrlManager}

/-- The search takes the first open slot on its way around, or its start. -/
theorem searchSlot_eq {initial : Nat} (hmax : m.ivMaxErrlInPnor < 2 ^ 32) {fuel slot k : Nat}
    (hslot : slot < m.ivMaxErrlInPnor) (hk : 1 ≤ k) (hfuel : k ≤ fuel)
    (hback : (slot + k) % m.ivMaxErrlInPnor = initial)
    (hfar : ∀ j, 1 ≤ j → j < k → (slot + j) % m.ivMaxErrlInPnor ≠ initial) :
    m.searchSlot initial fuel slot =
      some ((((List.range k).map fun j => (slot + 1 + j) % m.ivMaxErrlInPnor).find?
        m.isOpen).getD initial) := by
  induction fuel generalizing slot k with
  | zero => omega
  | succ fuel ih =>
    have hcycle : cycle m = m.ivMaxErrlInPnor := by
      unfold cycle
      exact if_neg (by omega)
    have hnext : m.nextSlot slot = (slot + 1) % m.ivMaxErrlInPnor := by
      rw [nextSlot_eq hmax (by rwa [hcycle]), hcycle]
    obtain ⟨k, rfl⟩ : ∃ n, k = n + 1 := ⟨k - 1, by omega⟩
    rw [range_succ_eq_map, map_cons, map_map, searchSlot, hnext, Nat.add_zero]
    by_cases hopen : m.isOpen ((slot + 1) % m.ivMaxErrlInPnor) = true
    · rw [find?_cons_of_pos hopen, hopen]
      rfl
    · rw [find?_cons_of_neg hopen]
      have hclosed : m.isOpen ((slot + 1) % m.ivMaxErrlInPnor) = false := by simpa using hopen
      by_cases hlast : k = 0
      · -- the search is back at its start
        subst hlast
        rw [if_neg (by simp [hback])]
        simp [hback]
      · have hne := hfar 1 le_rfl (by omega)
        have hlt : (slot + 1) % m.ivMaxErrlInPnor < m.ivMaxErrlInPnor := Nat.mod_lt _ (by omega)
        have hstep : ∀ j, ((slot + 1) % m.ivMaxErrlInPnor + j) % m.ivMaxErrlInPnor
            = (slot + (j + 1)) % m.ivMaxErrlInPnor := fun j => by
          rw [Nat.mod_add_mod, Nat.add_assoc, Nat.add_comm 1 j]
        have hrest := @ih _ k hlt (by omega) (by omega) (by rwa [hstep]) fun j hj hjk => by
          rw [hstep]
          exact hfar (j + 1) (by omega) (by omega)
        rw [if_pos (by simp [hclosed, hne]), hrest]
        refine congrArg (fun l => some ((List.find? m.isOpen l).getD initial)) ?_
        refine map_congr_left fun j _ => ?_
        rw [Nat.add_assoc, hstep, Function.comp_apply]
        congr 1
        omega

theorem incrementPnorOpenSlot_eq (hmax : m.ivMaxErrlInPnor < 2 ^ 32)
    (hcursor : m.ivPnorOpenSlot < m.ivMaxErrlInPnor) : m.incrementPnorOpenSlot =
      some (((slotsBehind m).find? m.isOpen).getD m.ivPnorOpenSlot) := by
  unfold incrementPnorOpenSlot slotsBehind
  refine searchSlot_eq hmax hcursor (by omega) (by omega) ?_ fun j hj hlt => ?_
  · rw [Nat.add_mod_right]
    exact Nat.mod_eq_of_lt hcursor
  · -- less than a whole round
    rcases Nat.lt_or_ge (m.ivPnorOpenSlot + j) m.ivMaxErrlInPnor with h | h
    · rw [Nat.mod_eq_of_lt h]
      omega
    · rw [Nat.mod_eq_sub_mod h, Nat.mod_eq_of_lt (by omega)]
      omega

theorem slotsBehind_eq (hcursor : m.ivPnorOpenSlot < m.ivMaxErrlInPnor) :
    ∃ others, slotsBehind m = others ++ [m.ivPnorOpenSlot] ∧
      ∀ j, j ∈ others ↔ j < m.ivMaxErrlInPnor ∧ j ≠ m.ivPnorOpenSlot := by
  obtain ⟨n, hn⟩ : ∃ n, m.ivMaxErrlInPnor = n + 1 := ⟨m.ivMaxErrlInPnor - 1, by omega⟩
  refine ⟨(List.range n).map fun k => (m.ivPnorOpenSlot + 1 + k) % (n + 1), ?_, fun j => ?_⟩
  · have hlast : (m.ivPnorOpenSlot + 1 + n) % (n + 1) = m.ivPnorOpenSlot := by
      rw [Nat.add_assoc, Nat.add_comm 1 n, Nat.add_mod_right]
      exact Nat.mod_eq_of_lt (by omega)
    unfold slotsBehind
    rw [hn, range_succ, map_append, map_singleton, hlast]
  · rw [mem_map, hn]
    constructor
    · rintro ⟨k, hk, rfl⟩
      rw [mem_range] at hk
      refine ⟨Nat.mod_lt _ (by omega), ?_⟩
      rcases Nat.lt_or_ge (m.ivPnorOpenSlot + 1 + k) (n + 1) with h | h
      · rw [Nat.mod_eq_of_lt h]
        omega
      · rw [Nat.mod_eq_sub_mod h, Nat.mod_eq_of_lt (by omega)]
        omega
    · rintro ⟨hj, hne⟩
      rcases Nat.lt_or_gt_of_ne hne with hlt | hgt
      · refine ⟨n - m.ivPnorOpenSlot + j, mem_range.mpr (by omega), ?_⟩
        rw [Nat.mod_eq_sub_mod (by omega), Nat.mod_eq_of_lt (by omega)]
        omega
      · refine ⟨j - m.ivPnorOpenSlot - 1, mem_range.mpr (by omega), ?_⟩
        rw [Nat.mod_eq_of_lt (by omega)]
        omega

/-- The search is right exactly when another slot is open or the one at the cursor is not. -/
theorem searchRight_iff (hmax : m.ivMaxErrlInPnor < 2 ^ 32)
    (hcursor : m.ivPnorOpenSlot < m.ivMaxErrlInPnor) :
    SearchRight m ↔ (∃ j < m.ivMaxErrlInPnor, j ≠ m.ivPnorOpenSlot ∧ m.isOpen j = true) ∨
      m.isOpen m.ivPnorOpenSlot = false := by
  obtain ⟨others, hbehind, hothers⟩ := slotsBehind_eq hcursor
  have hsearch := incrementPnorOpenSlot_eq hmax hcursor
  unfold SearchRight
  rw [hsearch]
  rw [hbehind, find?_append] at *
  cases hfind : others.find? m.isOpen with
  | some j =>
    -- another slot is open
    have hj := (hothers j).mp (mem_of_find?_eq_some hfind)
    have hopen := find?_some hfind
    refine iff_of_true ⟨j, rfl, ⟨fun _ => ⟨j, hj.1, hopen⟩, fun _ => hj.2⟩, fun _ => rfl⟩ ?_
    exact Or.inl ⟨j, hj.1, hj.2, hopen⟩
  | none =>
    have hclosed : ∀ j < m.ivMaxErrlInPnor, j ≠ m.ivPnorOpenSlot → m.isOpen j ≠ true :=
      fun j hj hne => find?_eq_none.mp hfind j ((hothers j).mpr ⟨hj, hne⟩)
    cases hopen : m.isOpen m.ivPnorOpenSlot with
    | true =>
      -- the search comes back to the only open slot
      refine iff_of_false ?_ ?_
      · rintro ⟨i, hi, hiff, -⟩
        simp only [find?_cons_of_pos hopen, Option.none_or, Option.getD_some,
          Option.some.injEq] at hi
        exact hiff.mpr ⟨_, hcursor, hopen⟩ hi.symm
      · rintro (⟨j, hj, hne, hj'⟩ | h)
        · exact hclosed j hj hne hj'
        · cases h
    | false =>
      have hnone : [m.ivPnorOpenSlot].find? m.isOpen = none := by simp [hopen]
      refine iff_of_true ⟨m.ivPnorOpenSlot, by rw [hnone]; rfl, ?_, fun h => absurd rfl h⟩
        (Or.inr rfl)
      refine iff_of_false (fun h => h rfl) ?_
      rintro ⟨j, hj, hj'⟩
      rcases eq_or_ne j m.ivPnorOpenSlot with rfl | hne
      · rw [hopen] at hj'
        cases hj'
      · exact hclosed j hj hne hj'

/-- Two slots behind a reboot: the log at the cursor is acknowledged, the other one is not. -/
def almostFull : ErrlManager :=
  { ErrlManager.init fun i =>
      if i = 0 then (sampleImage 0x90000002).setACKInFlattened else sampleImage 0x90000001 with
    ivPnorAddr := true
    ivMaxErrlInPnor := 2 }

theorem almostFull_open : almostFull.isOpen 0 = true ∧ almostFull.isOpen 1 = false := by decide

/-- In a partition that was never written, every slot is open. -/
theorem searchRight_blank : SearchRight { almostFull with slots := blankSlots } := by
  refine (searchRight_iff (by decide) (by decide)).mpr (Or.inl ⟨1, by decide, by decide, ?_⟩)
  decide

/-- The log at the cursor could be overwritten, and the search finds nothing. -/
theorem not_searchRight_almostFull : ¬ SearchRight almostFull := by
  rintro ⟨i, hi, hiff, -⟩
  have hbehind : slotsBehind almostFull = [1, 0] := rfl
  rw [incrementPnorOpenSlot_eq (by decide) (by decide), hbehind,
    find?_cons_of_neg (by simp [almostFull_open.2]),
    find?_cons_of_pos almostFull_open.1] at hi
  exact hiff.mpr ⟨0, by decide, almostFull_open.1⟩ (Option.some.inj hi).symm

end Hostboot.Errl
