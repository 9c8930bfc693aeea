import Hostboot.PtMgr.Lookup

/-!
# The entry to steal

When a group of the page table is full, `findOldPTE` chooses the entry that is
given up.  `Oldest` says what a good choice is: no entry of the idle task while
there is another one, and of the others the one that was not used for the
longest time, the lowest of them where there are several.
-/

namespace Hostboot.PtMgr.PageTableManager

open List

/-- The entry to steal from some entries. -/
structure Oldest (s : PageTableManager) (entries : List Nat) (old : Nat) : Prop where
  mem : old ∈ entries
  notIdle : (∃ i ∈ entries, s.isIdleTask i = false) → s.isIdleTask old = false
  most : ∀ i ∈ entries, s.isIdleTask i = false → (s.pt i).LRU ≤ (s.pt old).LRU
  lowest : ∀ i ∈ entries, s.isIdleTask i = false → (s.pt i).LRU = (s.pt old).LRU → old ≤ i

/-- One round of `findOldPTE`. -/
def olderPTE (s : PageTableManager) (old i : Nat) : Nat :=
  if s.isIdleTask old then i
  else if (s.pt i).LRU > (s.pt old).LRU && !s.isIdleTask i then i
  else old

theorem findOldPTE_eq (s : PageTableManager) (pteg : Nat) :
    s.findOldPTE pteg = (group pteg).foldl s.olderPTE (pteg * PTEG_SIZE) := rfl

variable {s : PageTableManager} {entries : List Nat} {old i : Nat}

theorem Oldest.singleton (s : PageTableManager) (i : Nat) : s.Oldest [i] i where
  mem := mem_singleton_self i
  notIdle := by
    rintro ⟨j, hj, hidle⟩
    rwa [mem_singleton.mp hj] at hidle
  most j hj _ := by rw [mem_singleton.mp hj]
  lowest j hj _ _ := (mem_singleton.mp hj).ge

/-- A round keeps the choice right, for the entries seen and the next one. -/
theorem Oldest.olderPTE (h : s.Oldest entries old) (hlt : ∀ j ∈ entries, j < i) :
    s.Oldest (entries ++ [i]) (s.olderPTE old i) := by
  have hcases : ∀ {j}, j ∈ entries ++ [i] → j ∈ entries ∨ j = i := fun hj => by
    rwa [mem_append, mem_singleton] at hj
  have hin : i ∈ entries ++ [i] := mem_append_right _ (mem_singleton_self i)
  unfold PageTableManager.olderPTE
  split
  · -- only entries of the idle task were seen
    rename_i hidle
    have hall : ∀ j ∈ entries, s.isIdleTask j ≠ false := fun j hj hne =>
      absurd (h.notIdle ⟨j, hj, hne⟩) (by simp [hidle])
    refine ⟨hin, ?_, fun j hj hne => ?_, fun j hj hne _ => ?_⟩
    · rintro ⟨j, hj, hne⟩
      rcases hcases hj with hj | rfl
      · exact absurd hne (hall j hj)
      · exact hne
    all_goals
      rcases hcases hj with hj | rfl
      · exact absurd hne (hall j hj)
      · exact le_rfl
  · rename_i hidle
    have hidle : s.isIdleTask old = false := by simpa using hidle
    split
    · -- the next entry was not used for longer than all that were seen
      rename_i hnext
      obtain ⟨hgt, hne⟩ : (s.pt old).LRU < (s.pt i).LRU ∧ s.isIdleTask i = false := by
        simpa using hnext
      refine ⟨hin, fun _ => hne, fun j hj hne => ?_, fun j hj hne heq => ?_⟩
      all_goals
        rcases hcases hj with hj | rfl
        · have hmost := h.most j hj hne
          omega
        · exact le_rfl
    · rename_i hnext
      have hle : s.isIdleTask i = false → (s.pt i).LRU ≤ (s.pt old).LRU := by
        intro hne
        rw [hne] at hnext
        simpa using hnext
      refine ⟨mem_append_left _ h.mem, fun _ => hidle, fun j hj hne => ?_,
        fun j hj hne heq => ?_⟩
      · rcases hcases hj with hj | rfl
        · exact h.most j hj hne
        · exact hle hne
      · rcases hcases hj with hj | rfl
        · exact h.lowest j hj hne heq
        · exact (hlt old h.mem).le

theorem Oldest.foldl {rest : List Nat} (h : s.Oldest entries old)
    (hsorted : (entries ++ rest).Pairwise (· < ·)) :
    s.Oldest (entries ++ rest) (rest.foldl s.olderPTE old) := by
  induction rest generalizing entries old with
  | nil => rwa [append_nil]
  | cons i rest ih =>
    have hlt : ∀ j ∈ entries, j < i := fun j hj =>
      (pairwise_append.mp hsorted).2.2 j hj i mem_cons_self
    rw [append_cons] at hsorted ⊢
    exact ih (h.olderPTE hlt) hsorted

theorem group_sorted (pteg : Nat) : (group pteg).Pairwise (· < ·) :=
  pairwise_map.mpr (pairwise_lt_range.imp fun hlt => Nat.add_lt_add_left hlt _)

theorem olderPTE_self (s : PageTableManager) (i : Nat) : s.olderPTE i i = i := by
  unfold olderPTE
  split
  · rfl
  · exact ite_self i

/-- `findOldPTE` chooses the right entry of every group. -/
theorem findOldPTE_oldest (s : PageTableManager) (pteg : Nat) :
    s.Oldest (group pteg) (s.findOldPTE pteg) := by
  have hgroup : group pteg = [pteg * PTEG_SIZE] ++
      (List.range' 1 7).map (pteg * PTEG_SIZE + ·) := rfl
  have hsorted := group_sorted pteg
  rw [findOldPTE_eq, hgroup, singleton_append, foldl_cons, olderPTE_self]
  exact (Oldest.singleton s _).foldl (hgroup ▸ hsorted)

end Hostboot.PtMgr.PageTableManager
