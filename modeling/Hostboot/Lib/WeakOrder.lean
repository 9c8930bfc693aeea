import Mathlib.Data.List.Pairwise
import Mathlib.Tactic.Common

/-!
# Strict weak orders given by a comparison

The comparisons that the standard library takes are functions to `Bool`.
`StrictWeak comp` is what the library asks of them: irreflexive, transitive, and
neither-before-the-other is transitive as well.  Two values that are not before
each other are `equiv`.
-/

namespace Hostboot.Lib

open List

variable {α : Type*}

/-- The comparison is a strict weak order. -/
structure StrictWeak (comp : α → α → Bool) : Prop where
  irrefl : ∀ a, comp a a = false
  trans : ∀ a b c, comp a b = true → comp b c = true → comp a c = true
  incomp_trans : ∀ a b c, comp a b = false → comp b a = false → comp b c = false →
    comp c b = false → comp a c = false ∧ comp c a = false

/-- Neither of the two values is before the other. -/
def equiv (comp : α → α → Bool) (a b : α) : Bool := !comp a b && !comp b a

theorem equiv_iff {comp : α → α → Bool} {a b : α} :
    equiv comp a b = true ↔ comp a b = false ∧ comp b a = false := by
  simp [equiv]

namespace StrictWeak

variable {comp : α → α → Bool} (h : StrictWeak comp)
include h

theorem asymm {a b : α} (hab : comp a b = true) : comp b a = false := by
  rw [Bool.eq_false_iff]
  intro hba
  exact absurd (h.trans a b a hab hba) (by simp [h.irrefl])

theorem neg_trans {a b c : α} (hab : comp a b = false) (hbc : comp b c = false) :
    comp a c = false := by
  rw [Bool.eq_false_iff]
  intro hac
  cases hba : comp b a with
  | true => exact absurd (h.trans b a c hba hac) (by simp [hbc])
  | false =>
    cases hcb : comp c b with
    | true => exact absurd (h.trans a c b hac hcb) (by simp [hab])
    | false => exact absurd hac (by simp [(h.incomp_trans a b c hab hba hbc hcb).1])

theorem lt_of_lt_of_not_lt {a b c : α} (hab : comp a b = true) (hcb : comp c b = false) :
    comp a c = true := by
  by_contra hac
  exact absurd (h.neg_trans (Bool.eq_false_iff.mpr hac) hcb) (by simp [hab])

theorem lt_of_not_lt_of_lt {a b c : α} (hba : comp b a = false) (hbc : comp b c = true) :
    comp a c = true := by
  by_contra hac
  exact absurd (h.neg_trans hba (Bool.eq_false_iff.mpr hac)) (by simp [hbc])

theorem equiv_refl (a : α) : equiv comp a a = true := equiv_iff.2 ⟨h.irrefl a, h.irrefl a⟩

end StrictWeak

/-! ## Lists divided by a key -/

variable {κ : Type*}

/-- The three lists have the keys before `k`, those that are `equiv` to it, and
those behind it. -/
structure Divides (comp : κ → κ → Bool) (key : α → κ) (k : κ) (xs mid ys : List α) : Prop where
  lt : ∀ b ∈ xs, comp (key b) k = true
  eq : ∀ b ∈ mid, equiv comp k (key b) = true
  gt : ∀ b ∈ ys, comp k (key b) = true

namespace Divides

variable {comp : κ → κ → Bool} {key : α → κ} {k : κ} {xs mid ys : List α}

theorem find?_equiv (h : Divides comp key k xs mid ys) :
    (xs ++ mid ++ ys).find? (fun a => equiv comp k (key a)) = mid.head? := by
  have hxs : xs.find? (fun a => equiv comp k (key a)) = none := by
    refine find?_eq_none.mpr fun b hb => ?_
    simp [equiv, h.lt b hb]
  have hys : ys.find? (fun a => equiv comp k (key a)) = none := by
    refine find?_eq_none.mpr fun b hb => ?_
    simp [equiv, h.gt b hb]
  rw [append_assoc, find?_append, hxs, Option.none_or]
  cases mid with
  | nil => exact hys
  | cons b mid => simp [h.eq b mem_cons_self]

theorem find?_not_lt (hc : StrictWeak comp) (h : Divides comp key k xs mid ys) :
    (xs ++ mid ++ ys).find? (fun a => !comp (key a) k) = (mid ++ ys).head? := by
  have hxs : xs.find? (fun a => !comp (key a) k) = none := by
    refine find?_eq_none.mpr fun b hb => ?_
    simp [h.lt b hb]
  rw [append_assoc, find?_append, hxs, Option.none_or]
  cases mid with
  | nil =>
    cases ys with
    | nil => rfl
    | cons b ys => simp [hc.asymm (h.gt b mem_cons_self)]
  | cons b mid => simp [(equiv_iff.1 (h.eq b mem_cons_self)).2]

theorem find?_gt (hc : StrictWeak comp) (h : Divides comp key k xs mid ys) :
    (xs ++ mid ++ ys).find? (fun a => comp k (key a)) = ys.head? := by
  have hxs : (xs ++ mid).find? (fun a => comp k (key a)) = none := by
    refine find?_eq_none.mpr fun b hb => ?_
    rcases mem_append.mp hb with hb | hb
    · simp [hc.asymm (h.lt b hb)]
    · simp [(equiv_iff.1 (h.eq b hb)).1]
  rw [find?_append, hxs, Option.none_or]
  cases ys with
  | nil => rfl
  | cons b ys => simp [h.gt b mem_cons_self]

theorem filter_lt (hc : StrictWeak comp) (h : Divides comp key k xs mid ys) :
    (xs ++ mid ++ ys).filter (fun a => comp (key a) k) = xs := by
  have hxs : xs.filter (fun a => comp (key a) k) = xs := filter_eq_self.mpr h.lt
  have hmid : mid.filter (fun a => comp (key a) k) = [] := by
    refine filter_eq_nil_iff.mpr fun b hb => ?_
    simp [(equiv_iff.1 (h.eq b hb)).2]
  have hys : ys.filter (fun a => comp (key a) k) = [] := by
    refine filter_eq_nil_iff.mpr fun b hb => ?_
    simp [hc.asymm (h.gt b hb)]
  rw [filter_append, filter_append, hxs, hmid, hys]
  simp

theorem filter_gt (hc : StrictWeak comp) (h : Divides comp key k xs mid ys) :
    (xs ++ mid ++ ys).filter (fun a => comp k (key a)) = ys := by
  have hxs : xs.filter (fun a => comp k (key a)) = [] := by
    refine filter_eq_nil_iff.mpr fun b hb => ?_
    simp [hc.asymm (h.lt b hb)]
  have hmid : mid.filter (fun a => comp k (key a)) = [] := by
    refine filter_eq_nil_iff.mpr fun b hb => ?_
    simp [(equiv_iff.1 (h.eq b hb)).1]
  have hys : ys.filter (fun a => comp k (key a)) = ys := filter_eq_self.mpr h.gt
  rw [filter_append, filter_append, hxs, hmid, hys]
  simp

theorem filter_equiv (h : Divides comp key k xs mid ys) :
    (xs ++ mid ++ ys).filter (fun a => equiv comp k (key a)) = mid := by
  have hxs : xs.filter (fun a => equiv comp k (key a)) = [] := by
    refine filter_eq_nil_iff.mpr fun b hb => ?_
    simp [equiv, h.lt b hb]
  have hmid : mid.filter (fun a => equiv comp k (key a)) = mid := filter_eq_self.mpr h.eq
  have hys : ys.filter (fun a => equiv comp k (key a)) = [] := by
    refine filter_eq_nil_iff.mpr fun b hb => ?_
    simp [equiv, h.gt b hb]
  rw [filter_append, filter_append, hxs, hmid, hys, append_nil, nil_append]

theorem filter_not_equiv (h : Divides comp key k xs mid ys) :
    (xs ++ mid ++ ys).filter (fun a => !equiv comp k (key a)) = xs ++ ys := by
  have hxs : xs.filter (fun a => !equiv comp k (key a)) = xs := by
    refine filter_eq_self.mpr fun b hb => ?_
    simp [equiv, h.lt b hb]
  have hmid : mid.filter (fun a => !equiv comp k (key a)) = [] := by
    refine filter_eq_nil_iff.mpr fun b hb => ?_
    simp [h.eq b hb]
  have hys : ys.filter (fun a => !equiv comp k (key a)) = ys := by
    refine filter_eq_self.mpr fun b hb => ?_
    simp [equiv, h.gt b hb]
  rw [filter_append, filter_append, hxs, hmid, hys, append_nil]

theorem map {β : Type*} {key' : β → κ} {f : α → β} (h : Divides comp key k xs mid ys)
    (hf : ∀ a, key' (f a) = key a) :
    Divides comp key' k (xs.map f) (mid.map f) (ys.map f) := by
  refine ⟨fun b hb => ?_, fun b hb => ?_, fun b hb => ?_⟩
  · obtain ⟨a, ha, rfl⟩ := mem_map.mp hb
    rw [hf]
    exact h.lt a ha
  · obtain ⟨a, ha, rfl⟩ := mem_map.mp hb
    rw [hf]
    exact h.eq a ha
  · obtain ⟨a, ha, rfl⟩ := mem_map.mp hb
    rw [hf]
    exact h.gt a ha

theorem of_split (hc : StrictWeak comp) {n : α}
    (hsorted : (xs ++ n :: ys).Pairwise fun a b => comp (key a) (key b) = true)
    (hn : equiv comp k (key n) = true) : Divides comp key k xs [n] ys := by
  obtain ⟨-, hcons, hlt⟩ := pairwise_append.mp hsorted
  have heq := equiv_iff.1 hn
  refine ⟨fun b hb => ?_, fun b hb => ?_, fun b hb => ?_⟩
  · exact hc.lt_of_lt_of_not_lt (hlt b hb n mem_cons_self) heq.1
  · rw [mem_singleton.mp hb]
    exact hn
  · exact hc.lt_of_not_lt_of_lt heq.2 ((pairwise_cons.mp hcons).1 b hb)

end Divides

end Hostboot.Lib
