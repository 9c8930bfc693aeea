import Mathlib.Logic.Basic

/-!
# Work lists that remove items

Items are live until a rule takes them away.  `Broken live x` says that some
rule finds fault with `x` when `live` is what is left, and losing more items
never repairs one (`hmono`).  A work list holds the items still to be looked
at: a *skip* drops the head, because it was removed before (it is spent) or no
rule finds fault with it, and a *fire* removes the head, with whatever goes
along with it, and pushes the live items near the head.

The invariant is `Settled`: every broken live item is watched.  It is on the
list, or it is near a listed item that is itself about to fire, and will be
pushed then.  A skip keeps it.  A fire keeps it for the items that were broken
before; for the items that the fire breaks it is the caller's duty.  With an
empty list nothing is watched, so no live item is broken.
-/

namespace Hostboot.Lib.Worklist

variable {T : Type*}

/-- The list, what is left, and the items removed by a fire. -/
structure Work (T : Type*) where
  queue : List T
  live : T → Prop
  spent : T → Prop

/-- One step on the head of the list.  A fire may take more than the head. -/
inductive Step (Broken : (T → Prop) → T → Prop) (near : T → T → Prop) :
    Work T → Work T → Prop
  | skip {t : T} {q : List T} {live spent : T → Prop} (hidle : spent t ∨ ¬ Broken live t) :
      Step Broken near ⟨t :: q, live, spent⟩ ⟨q, live, spent⟩
  | fire {t : T} {q pushed : List T} {live live' spent spent' : T → Prop} (hfresh : ¬ spent t)
      (hbroken : Broken live t) (hless : ∀ x, live' x → live x) (hdead : ¬ live' t)
      (hspent : ∀ x, spent' x ↔ x = t ∨ spent x) (hpushed : ∀ x, live' x → near t x → x ∈ pushed) :
      Step Broken near ⟨t :: q, live, spent⟩ ⟨pushed ++ q, live', spent'⟩

variable {Broken : (T → Prop) → T → Prop} {near : T → T → Prop}

theorem Step.mono_near {near' : T → T → Prop} (hless : ∀ x y, near' x y → near x y) {w w' : Work T}
    (hstep : Step Broken near w w') : Step Broken near' w w' := by
  cases hstep with
  | skip hidle => exact .skip hidle
  | fire hfresh hbroken hlive hdead hspent hpushed =>
    exact .fire hfresh hbroken hlive hdead hspent fun x hx hnear => hpushed x hx (hless _ x hnear)

/-- `x` is on the list, or will be pushed by a listed item. -/
def Watched (Broken : (T → Prop) → T → Prop) (near : T → T → Prop) (w : Work T) (x : T) : Prop :=
  x ∈ w.queue ∨ ∃ y ∈ w.queue, ¬ w.spent y ∧ Broken w.live y ∧ near y x

/-- Spent items are gone, and every broken item that is left is watched. -/
structure Settled (Broken : (T → Prop) → T → Prop) (near : T → T → Prop) (w : Work T) : Prop where
  spent_dead : ∀ x, w.spent x → ¬ w.live x
  watched : ∀ x, w.live x → Broken w.live x → Watched Broken near w x

theorem Settled.start {w : Work T} (hspent : ∀ x, ¬ w.spent x)
    (hall : ∀ x, w.live x → Broken w.live x → x ∈ w.queue) : Settled Broken near w where
  spent_dead := fun x hx => absurd hx (hspent x)
  watched := fun x hx hb => Or.inl (hall x hx hb)

theorem Settled.done {w : Work T} (hw : Settled Broken near w) (hempty : w.queue = []) (x : T)
    (hx : w.live x) : ¬ Broken w.live x := by
  intro hb
  rcases hw.watched x hx hb with hmem | ⟨y, hmem, -⟩
  · rw [hempty] at hmem
    exact absurd hmem List.not_mem_nil
  · rw [hempty] at hmem
    exact absurd hmem List.not_mem_nil

/-- One step keeps the list settled, if the items it breaks are watched. -/
theorem Settled.step (hmono : ∀ {live live' : T → Prop} {x : T}, (∀ y, live' y → live y) →
      Broken live x → Broken live' x)
    {w w' : Work T} (hw : Settled Broken near w) (hstep : Step Broken near w w')
    (hnew : ∀ x, w'.live x → ¬ Broken w.live x → Broken w'.live x → Watched Broken near w' x) :
    Settled Broken near w' := by
  cases hstep with
  | @skip t q live spent hidle =>
    have hnot : live t → ¬ spent t → ¬ Broken live t := by
      intro _ hfresh
      exact hidle.resolve_left hfresh
    refine ⟨hw.spent_dead, fun x hx hb => ?_⟩
    rcases hw.watched x hx hb with hmem | ⟨y, hmem, hfresh, hy, hnear⟩
    · rcases List.mem_cons.mp hmem with heq | hmem
      · have hlive : live t := heq ▸ hx
        have hbt : Broken live t := heq ▸ hb
        exact absurd hbt (hnot hlive fun hs => hw.spent_dead t hs hlive)
      · exact Or.inl hmem
    · rcases List.mem_cons.mp hmem with heq | hmem
      · have hfresh : ¬ spent t := heq ▸ hfresh
        have hbt : Broken live t := heq ▸ hy
        exact absurd hbt (hidle.resolve_left hfresh)
      · exact Or.inr ⟨y, hmem, hfresh, hy, hnear⟩
  | @fire t q pushed live live' spent spent' hfresh hbroken hless hdead hspent hpushed =>
    refine ⟨fun x hx hl => ?_, fun x hx hb => ?_⟩
    · rcases (hspent x).mp hx with heq | hs
      · exact hdead (heq ▸ hl)
      · exact hw.spent_dead x hs (hless x hl)
    · by_cases hold : Broken live x
      · rcases hw.watched x (hless x hx) hold with hmem | ⟨y, hmem, hy, hby, hnear⟩
        · rcases List.mem_cons.mp hmem with heq | hmem
          · exact absurd (heq ▸ hx) hdead
          · exact Or.inl (List.mem_append_right _ hmem)
        · by_cases heq : y = t
          · exact Or.inl (List.mem_append_left _ (hpushed x hx (heq ▸ hnear)))
          · have hmem : y ∈ q := (List.mem_cons.mp hmem).resolve_left heq
            have hfresh' : ¬ spent' y := fun hs => ((hspent y).mp hs).elim heq hy
            exact Or.inr ⟨y, List.mem_append_right _ hmem, hfresh', hmono hless hby, hnear⟩
      · exact hnew x hx hold hb

end Hostboot.Lib.Worklist
