import Hostboot.Lib.Lists
import Mathlib.Data.List.Nodup
import Mathlib.Data.List.Perm.Basic
import Mathlib.Order.Basic
import Mathlib.Order.Lattice

/-!
# Waiting lists in order of a key

A list is kept in falling order of a key, and elements of one key the newest first.
`Ordered key l arrivals` compares it with `arrivals`, the same elements in the order in
which they came, the newest first.

* `settle` puts a new element behind all greater keys (`Ordered.settle`).
* The last element of the list is the one that came first among those of the least key
  (`Ordered.last`), and it may be taken out (`Ordered.dropLast`).
-/

namespace Hostboot.Lib

open List

variable {α κ : Type*} [LinearOrder κ]

/-- A list in falling order of the key holds the arrivals, and those of one key in the order
of their arrival. -/
structure Ordered (key : α → κ) (l arrivals : List α) : Prop where
  perm : l.Perm arrivals
  sorted : l.Pairwise fun a b => key b ≤ key a
  stable : ∀ k, l.filter (fun a => key a = k) = arrivals.filter fun a => key a = k

/-- Put an element behind all greater keys. -/
def settle (key : α → κ) (x : α) : List α → List α
  | [] => [x]
  | y :: l => if key y ≤ key x then x :: y :: l else y :: settle key x l

attribute [grind =] settle

variable {key key' : α → κ} {l arrivals : List α} {x n : α}

theorem settle_perm (key : α → κ) (x : α) (l : List α) : (settle key x l).Perm (x :: l) := by
  induction l with
  | nil => exact List.Perm.refl _
  | cons y l ih =>
    rw [settle]
    by_cases hle : key y ≤ key x
    · rw [if_pos hle]
    · rw [if_neg hle]
      exact (ih.cons y).trans (List.Perm.swap x y l)

theorem settle_sorted (key : α → κ) (x : α) {l : List α}
    (h : l.Pairwise fun a b => key b ≤ key a) :
    (settle key x l).Pairwise fun a b => key b ≤ key a := by
  induction l with
  | nil => exact pairwise_singleton _ _
  | cons y l ih =>
    obtain ⟨hy, hl⟩ := pairwise_cons.mp h
    rw [settle]
    by_cases hle : key y ≤ key x
    · rw [if_pos hle]
      refine pairwise_cons.mpr ⟨fun z hz => ?_, h⟩
      rcases mem_cons.mp hz with rfl | hz
      · exact hle
      · exact (hy z hz).trans hle
    · rw [if_neg hle]
      refine pairwise_cons.mpr ⟨fun z hz => ?_, ih hl⟩
      rcases mem_cons.mp ((settle_perm key x l).mem_iff.mp hz) with rfl | hz
      · exact le_of_not_ge hle
      · exact hy z hz

theorem settle_filter (key : α → κ) (x : α) (l : List α) (k : κ) :
    (settle key x l).filter (fun a => key a = k) = (x :: l).filter fun a => key a = k := by
  induction l with
  | nil => rfl
  | cons y l ih =>
    rw [settle]
    by_cases hle : key y ≤ key x
    · rw [if_pos hle]
    · rw [if_neg hle, filter_cons, ih]
      by_cases hx : key x = k
      · have hy : key y ≠ k := fun heq => hle (heq.trans hx.symm).le
        simp [hx, hy]
      · simp [filter_cons, hx]

namespace Ordered

theorem nil (key : α → κ) : Ordered key [] [] := ⟨.refl _, .nil, fun _ => rfl⟩

theorem congr (h : Ordered key l arrivals) (hkey : ∀ a ∈ l, key' a = key a) :
    Ordered key' l arrivals := by
  have hfilter : ∀ (m : List α), (∀ a ∈ m, key' a = key a) → ∀ k,
      m.filter (fun a => key' a = k) = m.filter fun a => key a = k := by
    intro m hm k
    refine filter_congr fun a ha => ?_
    rw [hm a ha]
  refine ⟨h.perm, h.sorted.imp_of_mem fun {a b} ha hb hab => ?_, fun k => ?_⟩
  · rw [hkey a ha, hkey b hb]
    exact hab
  · rw [hfilter l hkey, hfilter arrivals fun a ha => hkey a (h.perm.mem_iff.mpr ha)]
    exact h.stable k

theorem settle (h : Ordered key l arrivals) (x : α) :
    Ordered key (settle key x l) (x :: arrivals) := by
  refine ⟨(settle_perm key x l).trans (h.perm.cons x), settle_sorted key x h.sorted, fun k => ?_⟩
  rw [settle_filter, filter_cons, filter_cons, h.stable]

theorem last_le (h : Ordered key (l ++ [n]) arrivals) {m : α} (hm : m ∈ arrivals) :
    key n ≤ key m := by
  have hin : m ∈ l ++ [n] := h.perm.mem_iff.mpr hm
  rcases mem_append.mp hin with hl | hn
  · exact (pairwise_append.mp h.sorted).2.2 m hl n mem_cons_self
  · rw [mem_singleton.mp hn]

theorem last (h : Ordered key (l ++ [n]) arrivals) (hnodup : arrivals.Nodup) :
    ∃ newer older, arrivals = newer ++ n :: older ∧ ∀ m ∈ older, key n < key m := by
  have hmem : n ∈ arrivals := h.perm.mem_iff.mp (by simp)
  obtain ⟨newer, older, heq⟩ := append_of_mem hmem
  refine ⟨newer, older, heq, fun m hm => ?_⟩
  have hin : m ∈ arrivals := by
    rw [heq]
    simp [hm]
  refine lt_of_le_of_ne (h.last_le hin) fun hkey => ?_
  -- an older arrival of the same key would be the last of them
  have hsame := h.stable (key n)
  rw [heq, filter_append, filter_append, filter_cons_of_pos (by simp),
    filter_cons_of_pos (by simp), filter_nil] at hsame
  have hne : (older.filter fun a => key a = key n) ≠ [] :=
    ne_nil_of_mem (mem_filter.mpr ⟨hm, by simp [hkey]⟩)
  obtain ⟨olds, z, hz⟩ := (eq_nil_or_concat _).resolve_left hne
  rw [concat_eq_append] at hz
  have hlast : n = z := by
    rw [hz, ← cons_append, ← append_assoc] at hsame
    exact singleton_inj.mp (append_inj_right' hsame rfl)
  have hin' : n ∈ older.filter fun a => key a = key n := by
    rw [hz, hlast]
    exact mem_append_right _ mem_cons_self
  have hold : n ∈ older := (mem_filter.mp hin').1
  rw [heq] at hnodup
  exact (nodup_cons.mp hnodup.of_append_right).1 hold

theorem dropLast [DecidableEq α] (h : Ordered key (l ++ [n]) arrivals) (hnodup : arrivals.Nodup) :
    Ordered key l (arrivals.erase n) := by
  obtain ⟨newer, older, heq, hbefore⟩ := h.last hnodup
  have hnewer : n ∉ newer := by
    rw [heq] at hnodup
    exact fun hmem => (nodup_append.mp hnodup).2.2 n hmem n mem_cons_self rfl
  have herase : arrivals.erase n = newer ++ older := by
    rw [heq, erase_append_right _ hnewer, erase_cons_head]
  refine ⟨?_, (pairwise_append.mp h.sorted).1, fun k => ?_⟩
  · rw [herase]
    have hperm := h.perm.trans (heq ▸ perm_middle)
    exact (perm_cons n).mp ((perm_append_singleton n l).symm.trans hperm)
  · have hsame := h.stable k
    rw [heq, filter_append, filter_append] at hsame
    rw [herase, filter_append]
    by_cases hk : key n = k
    · have holder : older.filter (fun a => key a = k) = [] := by
        refine filter_eq_nil_iff.mpr fun m hm => ?_
        rw [← hk]
        simpa using (hbefore m hm).ne'
      rw [filter_cons_of_pos (by simp [hk]), filter_nil,
        filter_cons_of_pos (by simp [hk]), holder] at hsame
      rw [holder, append_nil]
      exact append_cancel_right hsame
    · rw [filter_cons_of_neg (by simp [hk]), filter_nil, append_nil,
        filter_cons_of_neg (by simp [hk])] at hsame
      exact hsame

theorem filter (h : Ordered key l arrivals) (p : κ → Bool) :
    Ordered key (l.filter fun a => p (key a)) (arrivals.filter fun a => p (key a)) := by
  refine ⟨h.perm.filter _, h.sorted.sublist filter_sublist, fun k => ?_⟩
  rw [filter_comm, h.stable, filter_comm]

end Ordered

/-- Of the elements of the least key, the one that came first. -/
structure First (key : α → κ) (n : α) (arrivals : List α) : Prop where
  mem : n ∈ arrivals
  least : ∀ m ∈ arrivals, key n ≤ key m
  first : ∃ newer older, arrivals = newer ++ n :: older ∧ ∀ m ∈ older, key n < key m

theorem First.unique {m : α} (hn : First key n arrivals) (hm : First key m arrivals) : n = m := by
  have hkey : key n = key m := le_antisymm (hn.least m hm.mem) (hm.least n hn.mem)
  obtain ⟨newer, older, heq, hold⟩ := hn.first
  obtain ⟨newer', older', heq', hold'⟩ := hm.first
  by_contra hne
  -- each would stand in front of the other
  have hm1 : m ∉ older := fun hmem => (hold m hmem).ne hkey
  have hn1 : n ∉ older' := fun hmem => (hold' n hmem).ne hkey.symm
  have hsplit : newer ++ n :: older = newer' ++ m :: older' := heq.symm.trans heq'
  rcases append_eq_append_iff.mp hsplit with ⟨as, -, has⟩ | ⟨as, -, has⟩
  · cases as with
    | nil => exact hne (List.cons.inj has).1
    | cons a as =>
      refine hm1 ?_
      rw [(List.cons.inj has).2]
      exact mem_append_right _ mem_cons_self
  · cases as with
    | nil => exact hne (List.cons.inj has).1.symm
    | cons a as =>
      refine hn1 ?_
      rw [(List.cons.inj has).2]
      exact mem_append_right _ mem_cons_self

theorem Ordered.first (h : Ordered key (l ++ [n]) arrivals) (hnodup : arrivals.Nodup) :
    First key n arrivals :=
  ⟨h.perm.mem_iff.mp (by simp), fun _ => h.last_le, h.last hnodup⟩

end Hostboot.Lib
