import Mathlib.Data.Fintype.Basic
import Mathlib.Data.Finset.Card
import Mathlib.Data.Fintype.Card
import Mathlib.Logic.Function.Basic

/-!
# Counting the parties in a place

`tally f p` is the number of parties whose value satisfies `p`.  A step of one party
changes it by at most one, and `tally_update` says by how much.
-/

namespace Hostboot.Lib

variable {ι α β : Type*} [Fintype ι]

/-- The number of parties whose value satisfies `p`. -/
def tally (f : ι → α) (p : α → Bool) : Nat := (Finset.univ.filter fun c => p (f c) = true).card

theorem tally_eq_zero {f : ι → α} {p : α → Bool} : tally f p = 0 ↔ ∀ c, p (f c) = false := by
  unfold tally
  rw [Finset.card_eq_zero, Finset.filter_eq_empty_iff]
  simp

theorem tally_pos {f : ι → α} {p : α → Bool} {c : ι} (h : p (f c) = true) : 0 < tally f p :=
  Finset.card_pos.mpr ⟨c, by simpa using h⟩

theorem tally_le_card (f : ι → α) (p : α → Bool) : tally f p ≤ Fintype.card ι :=
  Finset.card_le_univ _

theorem tally_congr {f : ι → α} {g : ι → β} {p : α → Bool} {q : β → Bool}
    (h : ∀ c, p (f c) = q (g c)) :
    tally f p = tally g q := by
  unfold tally
  simp only [h]

section Update

variable [DecidableEq ι]

theorem tally_update (f : ι → α) (p : α → Bool) (c : ι) (x : α) :
    tally (Function.update f c x) p + (p (f c)).toNat = tally f p + (p x).toNat := by
  have hrest : ∀ g : ι → α, tally g p
      = ((Finset.univ.erase c).filter fun d => p (g d) = true).card + (p (g c)).toNat := by
    intro g
    unfold tally
    conv_lhs => rw [← Finset.insert_erase (Finset.mem_univ c), Finset.filter_insert]
    cases hc : p (g c) with
    | false => simp
    | true =>
      rw [if_pos rfl, Finset.card_insert_of_notMem (by simp)]
      rfl
  have hsame : ((Finset.univ.erase c).filter fun d => p (Function.update f c x d) = true)
      = (Finset.univ.erase c).filter fun d => p (f d) = true := by
    apply Finset.filter_congr
    intro d hd
    rw [Function.update_of_ne (Finset.ne_of_mem_erase hd)]
  rw [hrest f, hrest (Function.update f c x), hsame, Function.update_self]
  omega

end Update

end Hostboot.Lib
