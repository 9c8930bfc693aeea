import Hostboot.Util.Qsort
import Mathlib.Logic.Relation

/-!
# Partial good propagation

`checkPartialGoodForDescendants` decides which descendants of a chip are
functional.  The first pass goes over the descendants bottom-up, one group of
siblings after the other, and the second pass goes top-down and takes the
children of every bad target with it.

What the target service knows of the descendants is a parameter, and so are
the rules that `findRulesForTarget` finds for each of them.  A null pointer that
is followed is `none`, and so is a recursion that is deeper than `rounds`.
-/

namespace Hostboot.Hwas.PartialGood

open Util List
open Function (update update_eq_self update_of_ne update_self)

/-! ## The functions of the source -/

/-- `TARGETING::TargetHandle_t`. -/
abbrev TargetHandle := Nat

def nullptr : TargetHandle := 0

/-- By which two pointers are compared. -/
def address (t : TargetHandle) : Nat := t

/-- `TARGETING::TYPE`, as far as the functions of this module ask for it. -/
inductive TargetType
  | perv | pauc | other
deriving DecidableEq, Repr

/-- `PartialGoodRule`, with its answer for the partial good data. -/
structure PartialGoodRule where
  isApplicableToChipUnit : Nat → Bool
  isApplicableToCurrentModel : Bool
  isFunctional : Bool

/-- What the target service, the attributes and the rules say of the targets. -/
structure Targets where
  type : TargetHandle → TargetType
  /-- The size of `ATTR_AFFINITY_PATH`. -/
  affinityPathSize : TargetHandle → Nat
  getImmediateParentByAffinity : TargetHandle → TargetHandle
  /-- `getAssociated` for `CHILD` and `IMMEDIATE`. -/
  children : TargetHandle → List TargetHandle
  /-- `getAssociated` for `CHILD` and `ALL`. -/
  descendants : TargetHandle → List TargetHandle
  hasProcParent : TargetHandle → Bool
  hasPervParent : TargetHandle → Bool
  /-- `none` is an error log. -/
  findRulesForTarget : TargetHandle → Option (List PartialGoodRule)
  /-- `none` where the target has no `ATTR_CHIP_UNIT`. -/
  chipUnit : TargetHandle → Option Nat

/-- `pgState_map`. -/
abbrev PgStateMap := TargetHandle → Option Bool

/-- The rules of a target pass, or it has none that are looked at. -/
def rulesPass (top : Targets) (desc : TargetHandle) : Bool :=
  if !top.hasProcParent desc || (!top.hasPervParent desc && top.type desc ≠ .perv) then true
  else
    match top.findRulesForTarget desc, top.chipUnit desc with
    | some rules, some targetCU => rules.all fun pgRule =>
      !(pgRule.isApplicableToChipUnit targetCU && pgRule.isApplicableToCurrentModel)
        || pgRule.isFunctional
    | _, _ => true

/-- `isDescFunctional`: the answer, the states, and the targets that the rules turned down, if
they are asked for. -/
def isDescFunctional (top : Targets) (desc : TargetHandle) (targetStates : PgStateMap)
    (deconfigTargets : Option (List TargetHandle)) :
    Bool × PgStateMap × Option (List TargetHandle) :=
  if targetStates desc = some false then (false, targetStates, deconfigTargets)
  else
    let functional := rulesPass top desc
    (functional, update targetStates desc (some functional),
      if functional then deconfigTargets else deconfigTargets.map (· ++ [desc]))

def markChildrenNonFunctional (top : Targets) :
    Nat → TargetHandle → PgStateMap → Option PgStateMap
  | 0, _, _ => none
  | rounds + 1, parent, targetStates =>
    if targetStates parent = some false then
      (top.children parent).foldlM (fun targetStates child =>
        if targetStates child = some false then some targetStates
        else
          let targetStates := update targetStates child (some false)
          if (top.children child).isEmpty then some targetStates
          else markChildrenNonFunctional top rounds child targetStates) targetStates
    else some targetStates

/-- The comparison by which the descendants are sorted. -/
def before (top : Targets) (a b : TargetHandle) : Bool :=
  top.affinityPathSize b < top.affinityPathSize a ||
    (top.affinityPathSize a == top.affinityPathSize b &&
      address (top.getImmediateParentByAffinity b) < address (top.getImmediateParentByAffinity a))

/-- The local variables of the first pass. -/
structure FirstPass where
  targetStates : PgStateMap
  deconfigTargets : Option (List TargetHandle)
  parent : TargetHandle
  parentState : Bool

/-- The end of a group of siblings, when a target has another parent. -/
def changeParent (s : FirstPass) (parent : TargetHandle) : FirstPass :=
  if parent ≠ s.parent then
    { s with
      targetStates :=
        if s.parent ≠ nullptr then update s.targetStates s.parent (some s.parentState)
        else s.targetStates
      parent := parent
      parentState := false }
  else s

/-- One round of the first pass. -/
def firstPass (top : Targets) (s : FirstPass) (desc : TargetHandle) : Option FirstPass :=
  let s := changeParent s (top.getImmediateParentByAffinity desc)
  let (descState, targetStates, deconfigTargets) :=
    isDescFunctional top desc s.targetStates s.deconfigTargets
  if s.parent = nullptr then none
  else some ⟨targetStates, deconfigTargets, s.parent,
    s.parentState || descState || top.type s.parent = .pauc⟩

/-- A call of `enableHwasState`. -/
structure Mark where
  target : TargetHandle
  present : Bool
  functional : Bool
deriving DecidableEq, Repr

/-- What `checkPartialGoodForDescendants` leaves behind: the states, the calls of
`enableHwasState`, the targets in the error log for information, whether that log is to be
made, the target that is missing in the states, and the result of a test. -/
structure Outcome where
  targetStates : PgStateMap
  deconfigTargets : Option (List TargetHandle)
  marks : List Mark
  infoTargets : List TargetHandle
  createInfoLog : Bool
  missing : Option TargetHandle
  testResult : Option Bool

/-- How a descendant is marked. -/
def markOf (top : Targets) (chipFunctional : Bool) (desc : TargetHandle) (descFunctional : Bool) :
    Mark :=
  if top.type desc = .perv then ⟨desc, chipFunctional, descFunctional⟩
  else ⟨desc, descFunctional, descFunctional⟩

/-- The second pass, over the descendants from the last one on. -/
def secondPass (rounds : Nat) (top : Targets) (chipFunctional isTestcase : Bool) :
    List TargetHandle → Outcome → Option Outcome
  | [], out => some out
  | desc :: descs, out =>
    if chipFunctional then do
      let targetStates ← markChildrenNonFunctional top rounds desc out.targetStates
      match targetStates desc with
      | none => some { out with targetStates := targetStates, missing := some desc }
      | some descFunctional =>
        let info := !descFunctional && !isTestcase
        secondPass rounds top chipFunctional isTestcase descs
          { out with
            targetStates := targetStates
            infoTargets := if info then out.infoTargets ++ [desc] else out.infoTargets
            createInfoLog := out.createInfoLog || info
            marks :=
              if isTestcase then out.marks
              else out.marks ++ [markOf top chipFunctional desc descFunctional] }
    else secondPass rounds top chipFunctional isTestcase descs
      { out with
        marks :=
          if isTestcase then out.marks
          else out.marks ++ [markOf top chipFunctional desc chipFunctional] }

def checkPartialGoodForDescendants (rounds : Nat) (top : Targets) (target : TargetHandle)
    (chipFunctional createInfoLog isTestcase : Bool)
    (deconfigTargets : Option (List TargetHandle)) : Option Outcome := do
  let descs := top.descendants target ++ if isTestcase then [target] else []
  let descs := if chipFunctional then QSort.sort (before top) descs else descs
  let s : FirstPass := ⟨fun _ => none, deconfigTargets, nullptr, false⟩
  let s ← if chipFunctional then descs.foldlM (firstPass top) s else some s
  let out ← secondPass rounds top chipFunctional isTestcase descs.reverse
    ⟨s.targetStates, s.deconfigTargets, [], [], createInfoLog, none, none⟩
  some { out with
    testResult := if isTestcase then some ((out.targetStates target).getD false) else none }

/-! ## The tree -/

/-- The descendants of a chip are a tree: each has its parent in it, one step higher, and the
parents by containment are those by affinity. -/
structure Tree (top : Targets) (chip : TargetHandle) : Prop where
  nodup : (top.descendants chip).Nodup
  apart : chip ∉ top.descendants chip
  known : ∀ t ∈ top.descendants chip, top.getImmediateParentByAffinity t ≠ nullptr
  parent : ∀ t ∈ top.descendants chip, top.getImmediateParentByAffinity t = chip ∨
    top.getImmediateParentByAffinity t ∈ top.descendants chip
  path : ∀ t ∈ top.descendants chip,
    top.affinityPathSize t = top.affinityPathSize (top.getImmediateParentByAffinity t) + 1
  coincide : ∀ t ∈ top.descendants chip, ∀ c, c ∈ top.children t
    ↔ c ∈ top.descendants chip ∧ top.getImmediateParentByAffinity c = t

/-- A target that is functional as far as it and what is below it are concerned. -/
inductive Good (top : Targets) : TargetHandle → Prop
  | childless {t : TargetHandle} : rulesPass top t = true → top.children t = [] → Good top t
  | pauc {t : TargetHandle} : rulesPass top t = true → top.type t = .pauc → Good top t
  | child {t c : TargetHandle} : rulesPass top t = true → c ∈ top.children t → Good top c →
      Good top t

/-- The second target is an ancestor of the first one, below the chip. -/
def Ancestor (top : Targets) (chip : TargetHandle) : TargetHandle → TargetHandle → Prop :=
  Relation.TransGen fun t p => t ∈ top.descendants chip ∧ p ∈ top.descendants chip ∧
    top.getImmediateParentByAffinity t = p

/-- A target that should be functional. -/
def Functional (top : Targets) (chip t : TargetHandle) : Prop :=
  Good top t ∧ ∀ a, Ancestor top chip t a → Good top a

theorem good_iff {top : Targets} {t : TargetHandle} : Good top t
    ↔ rulesPass top t = true ∧
      (top.children t = [] ∨ top.type t = .pauc ∨ ∃ c ∈ top.children t, Good top c) := by
  constructor
  · rintro (⟨hrules, hnil⟩ | ⟨hrules, hpauc⟩ | ⟨hrules, hc, hgood⟩)
    · exact ⟨hrules, Or.inl hnil⟩
    · exact ⟨hrules, Or.inr (Or.inl hpauc)⟩
    · exact ⟨hrules, Or.inr (Or.inr ⟨_, hc, hgood⟩)⟩
  · rintro ⟨hrules, hnil | hpauc | ⟨c, hc, hgood⟩⟩
    · exact .childless hrules hnil
    · exact .pauc hrules hpauc
    · exact .child hrules hc hgood

theorem functional_iff {top : Targets} {chip t : TargetHandle} (htree : Tree top chip)
    (ht : t ∈ top.descendants chip) : Functional top chip t
    ↔ Good top t ∧ (top.getImmediateParentByAffinity t = chip ∨
      Functional top chip (top.getImmediateParentByAffinity t)) := by
  constructor
  · rintro ⟨hgood, hall⟩
    refine ⟨hgood, (htree.parent t ht).imp id fun hp => ?_⟩
    exact ⟨hall _ (.single ⟨ht, hp, rfl⟩), fun a ha => hall a (.head ⟨ht, hp, rfl⟩ ha)⟩
  · rintro ⟨hgood, hchip | ⟨hparent, hall⟩⟩
    · refine ⟨hgood, fun a ha => ?_⟩
      obtain ⟨p, ⟨-, hp, rfl⟩, -⟩ := Relation.TransGen.head'_iff.mp ha
      rw [hchip] at hp
      exact absurd hp htree.apart
    · refine ⟨hgood, fun a ha => ?_⟩
      obtain ⟨p, ⟨-, hp, rfl⟩, hrest⟩ := Relation.TransGen.head'_iff.mp ha
      rcases Relation.reflTransGen_iff_eq_or_transGen.mp hrest with rfl | hrest
      · exact hparent
      · exact hall a hrest

/-! ## The first pass -/

/-- A target may stand behind another one in the sorted list. -/
def Follows (top : Targets) (a b : TargetHandle) : Prop :=
  top.affinityPathSize b < top.affinityPathSize a ∨
    top.affinityPathSize b = top.affinityPathSize a ∧
      address (top.getImmediateParentByAffinity b) ≤ address (top.getImmediateParentByAffinity a)

theorem before_eq_false {top : Targets} {a b : TargetHandle} :
    before top a b = false ↔ Follows top b a := by
  unfold before Follows
  simp only [Bool.or_eq_false_iff, Bool.and_eq_false_iff, decide_eq_false_iff_not,
    beq_eq_false_iff_ne]
  omega

theorem pairwise_sort (top : Targets) (descs : List TargetHandle) :
    (QSort.sort (before top) descs).Pairwise (Follows top) := by
  refine (QSort.sort_pairwise _ descs ?_ ?_).imp before_eq_false.mp
  · intro a b hab
    rw [before_eq_false]
    unfold before at hab
    simp only [Bool.or_eq_true, Bool.and_eq_true, decide_eq_true_eq, beq_iff_eq] at hab
    unfold Follows
    omega
  · simp only [before_eq_false]
    unfold Follows
    omega

/-- What is known of the state of a parent: whether it is a PAUC or one of its children so far
is good. -/
def groupState (top : Targets) (good : TargetHandle → Bool) (done : List TargetHandle)
    (p : TargetHandle) : Bool :=
  top.type p = .pauc || done.any fun c => decide (top.getImmediateParentByAffinity c = p) && good c

/-- A group of siblings has been met. -/
def Met (top : Targets) (done : List TargetHandle) (p : TargetHandle) : Prop :=
  ∃ c ∈ done, top.getImmediateParentByAffinity c = p

/-- The first pass behind the targets `done`: their states are final, and the parents of the
groups that are complete have states for the time being. -/
structure FirstInv (top : Targets) (good : TargetHandle → Bool) (done : List TargetHandle)
    (s : FirstPass) : Prop where
  seen : ∀ t ∈ done, s.targetStates t = some (good t)
  last : ∀ t ∈ done.getLast?, s.parent = top.getImmediateParentByAffinity t
  start : done = [] → s.parent = nullptr
  state : done ≠ [] → s.parentState = groupState top good done s.parent
  closed : ∀ p ∉ done, Met top done p → p ≠ s.parent →
    s.targetStates p = some (groupState top good done p)
  unseen : ∀ p ∉ done, ¬Met top done p ∨ p = s.parent → s.targetStates p = none

section
variable {top : Targets} {chip : TargetHandle} {good : TargetHandle → Bool}
  {done todo : List TargetHandle} {t : TargetHandle} {s : FirstPass}

theorem groupState_append_of_ne {p : TargetHandle} (h : top.getImmediateParentByAffinity t ≠ p) :
    groupState top good (done ++ [t]) p = groupState top good done p := by
  unfold groupState
  simp [h]

theorem groupState_append :
    groupState top good (done ++ [t]) (top.getImmediateParentByAffinity t)
      = (groupState top good done (top.getImmediateParentByAffinity t) || good t) := by
  unfold groupState
  simp [Bool.or_assoc]

theorem met_append {p : TargetHandle} :
    Met top (done ++ [t]) p ↔ Met top done p ∨ top.getImmediateParentByAffinity t = p := by
  unfold Met
  simp [or_and_right, exists_or]

end

/-- Where the sorted list stands at a descendant. -/
structure Place (top : Targets) (chip : TargetHandle) (done : List TargetHandle)
    (t : TargetHandle) (todo : List TargetHandle) : Prop where
  tree : Tree top chip
  perm : (done ++ t :: todo).Perm (top.descendants chip)
  sorted : (done ++ t :: todo).Pairwise (Follows top)

section
variable {top : Targets} {chip : TargetHandle} {good : TargetHandle → Bool}
  {done todo : List TargetHandle} {t c : TargetHandle} {s : FirstPass}

theorem Place.mem (h : Place top chip done t todo) : t ∈ top.descendants chip :=
  h.perm.mem_iff.mp (mem_append_right _ mem_cons_self)

theorem Place.mem_of_done (h : Place top chip done t todo) (hc : c ∈ done) :
    c ∈ top.descendants chip := h.perm.mem_iff.mp (mem_append_left _ hc)

theorem Place.notMem (h : Place top chip done t todo) : t ∉ done := fun ht =>
  (nodup_append.mp (h.perm.nodup_iff.mpr h.tree.nodup)).2.2 t ht t mem_cons_self rfl

theorem Place.follows (h : Place top chip done t todo) (hc : c ∈ done) : Follows top c t :=
  (pairwise_append.mp h.sorted).2.2 c hc t mem_cons_self

theorem Place.mem_children_iff (h : Place top chip done t todo) :
    c ∈ top.children t ↔ c ∈ done ∧ top.getImmediateParentByAffinity c = t := by
  rw [h.tree.coincide t h.mem]
  constructor
  · rintro ⟨hc, rfl⟩
    have hpath := h.tree.path c hc
    refine ⟨?_, rfl⟩
    rcases mem_append.mp (h.perm.mem_iff.mpr hc) with hdone | hrest
    · exact hdone
    · rcases mem_cons.mp hrest with heq | htodo
      · rw [← heq] at hpath
        omega
      · have hfollows := (pairwise_cons.mp (pairwise_append.mp h.sorted).2.1).1 c htodo
        unfold Follows at hfollows
        omega
  · rintro ⟨hc, hparent⟩
    exact ⟨h.mem_of_done hc, hparent⟩

theorem Place.parent_notMem (h : Place top chip done t todo) :
    top.getImmediateParentByAffinity t ∉ done := by
  intro hp
  have hfollows := h.follows hp
  have hpath := h.tree.path t h.mem
  unfold Follows at hfollows
  omega

/-- The last target so far: what is in front of it, and that its parent is not. -/
theorem Place.exists_last (h : Place top chip done t todo) (hne : done ≠ [])
    (hinv : FirstInv top good done s) :
    ∃ l ∈ done, s.parent = top.getImmediateParentByAffinity l ∧ s.parent ∉ done ∧
      ∀ c ∈ done, c = l ∨ Follows top c l := by
  obtain ⟨front, l, rfl⟩ := (eq_nil_or_concat' done).resolve_left hne
  have hl : l ∈ front ++ [l] := mem_append_right _ mem_cons_self
  have hfront : ∀ c ∈ front ++ [l], c = l ∨ Follows top c l := by
    intro c hc
    rcases mem_append.mp hc with hc | hc
    · have hdone := (pairwise_append.mp h.sorted).1
      exact Or.inr ((pairwise_append.mp hdone).2.2 c hc l mem_cons_self)
    · exact Or.inl (mem_singleton.mp hc)
  have hparent := hinv.last l (by simp)
  refine ⟨l, hl, hparent, fun hp => ?_, hfront⟩
  have hpath := h.tree.path l (h.mem_of_done hl)
  rw [← hparent] at hpath
  rcases hfront _ hp with heq | hfollows
  · rw [heq] at hpath
    omega
  · unfold Follows at hfollows
    omega

/-- The groups are contiguous: a parent that has been met is the current one. -/
theorem Place.parent_eq_of_met (h : Place top chip done t todo) (hinv : FirstInv top good done s)
    (hmet : Met top done (top.getImmediateParentByAffinity t)) :
    s.parent = top.getImmediateParentByAffinity t := by
  obtain ⟨c, hc, hsame⟩ := hmet
  obtain ⟨l, hl, hparent, -, hfront⟩ := h.exists_last (ne_nil_of_mem hc) hinv
  rw [hparent]
  rcases hfront c hc with rfl | hcl
  · exact hsame
  · have hlt := h.follows hl
    have hpathc := h.tree.path c (h.mem_of_done hc)
    have hpatht := h.tree.path t h.mem
    rw [hsame, ← hpatht] at hpathc
    unfold Follows at hcl hlt
    rw [hsame] at hcl
    have hle : address (top.getImmediateParentByAffinity l)
        ≤ address (top.getImmediateParentByAffinity t) := by omega
    have hge : address (top.getImmediateParentByAffinity t)
        ≤ address (top.getImmediateParentByAffinity l) := by omega
    exact Nat.le_antisymm hle hge

/-- The states when a target is about to be looked at: nothing is recorded of its own parent,
and the groups that have been met are complete otherwise. -/
structure Switched (top : Targets) (good : TargetHandle → Bool) (done : List TargetHandle)
    (p : TargetHandle) (s : FirstPass) : Prop where
  parent : s.parent = p
  state : (s.parentState || top.type p = .pauc) = groupState top good done p
  seen : ∀ x ∈ done, s.targetStates x = some (good x)
  closed : ∀ x ∉ done, Met top done x → x ≠ p →
    s.targetStates x = some (groupState top good done x)
  unseen : ∀ x ∉ done, ¬Met top done x ∨ x = p → s.targetStates x = none

theorem Place.switched (h : Place top chip done t todo) (hinv : FirstInv top good done s) :
    Switched top good done (top.getImmediateParentByAffinity t)
      (changeParent s (top.getImmediateParentByAffinity t)) := by
  unfold changeParent
  by_cases heq : top.getImmediateParentByAffinity t = s.parent
  · have hne : done ≠ [] := fun hnil => h.tree.known t h.mem (heq.trans (hinv.start hnil))
    rw [if_neg (not_not.mpr heq), heq]
    refine ⟨rfl, ?_, hinv.seen, hinv.closed, hinv.unseen⟩
    rw [hinv.state hne]
    unfold groupState
    cases decide (top.type s.parent = .pauc) <;> simp
  · -- a new group begins, and none of its targets has been met
    have hnot : ¬Met top done (top.getImmediateParentByAffinity t) :=
      fun hmet => heq (h.parent_eq_of_met hinv hmet).symm
    have hstate : (false || decide (top.type (top.getImmediateParentByAffinity t) = .pauc))
        = groupState top good done (top.getImmediateParentByAffinity t) := by
      have hnone : (done.any fun c => decide (top.getImmediateParentByAffinity c
          = top.getImmediateParentByAffinity t) && good c) = false := by
        refine any_eq_false.mpr fun c hc hand => hnot ⟨c, hc, ?_⟩
        exact of_decide_eq_true (Bool.and_eq_true_iff.mp hand).1
      unfold groupState
      rw [hnone, Bool.or_false, Bool.false_or]
    rw [if_pos heq]
    by_cases hnil : done = []
    · subst hnil
      rw [if_neg (not_not.mpr (hinv.start rfl))]
      refine ⟨rfl, hstate, hinv.seen, fun x _ hmet => ?_, fun x hx _ => ?_⟩
      · obtain ⟨c, hc, -⟩ := hmet
        exact absurd hc not_mem_nil
      · refine hinv.unseen x hx (Or.inl ?_)
        rintro ⟨c, hc, -⟩
        exact absurd hc not_mem_nil
    · obtain ⟨l, hl, hparent, hout, -⟩ := h.exists_last hnil hinv
      have hnull : s.parent ≠ nullptr := by
        rw [hparent]
        exact h.tree.known l (h.mem_of_done hl)
      rw [if_pos hnull]
      refine ⟨rfl, hstate, fun x hx => ?_, fun x hx hmet hxp => ?_, fun x hx hor => ?_⟩
      · have hne : x ≠ s.parent := fun heq => hout (heq ▸ hx)
        exact (update_of_ne hne _ _).trans (hinv.seen x hx)
      · by_cases hxs : x = s.parent
        · subst hxs
          refine (update_self _ _ _).trans ?_
          rw [hinv.state hnil]
        · exact (update_of_ne hxs _ _).trans (hinv.closed x hx hmet hxs)
      · have hnotx : ¬Met top done x := by
          rcases hor with hnotx | rfl
          · exact hnotx
          · exact hnot
        have hne : x ≠ s.parent := by
          rintro rfl
          exact hnotx ⟨l, hl, hparent.symm⟩
        exact (update_of_ne hne _ _).trans (hinv.unseen x hx (Or.inl hnotx))

/-- What a good target is, as an equation. -/
def GoodEquation (top : Targets) (chip : TargetHandle) (good : TargetHandle → Bool) : Prop :=
  ∀ t ∈ top.descendants chip, good t = (rulesPass top t &&
    ((top.children t).isEmpty || (decide (top.type t = .pauc) || (top.children t).any good)))

theorem Place.isDescFunctional_eq (h : Place top chip done t todo)
    (hgood : GoodEquation top chip good)
    (hs : Switched top good done (top.getImmediateParentByAffinity t) s) :
    ∃ deconfigTargets, isDescFunctional top t s.targetStates s.deconfigTargets
      = (good t, update s.targetStates t (some (good t)), deconfigTargets) := by
  have heq := hgood t h.mem
  have hparent : t ≠ top.getImmediateParentByAffinity t := by
    intro hsame
    have hpath := h.tree.path t h.mem
    rw [← hsame] at hpath
    omega
  unfold isDescFunctional
  by_cases hmet : Met top done t
  · have hstate := hs.closed t h.notMem hmet hparent
    have hgroup : groupState top good done t
        = (decide (top.type t = .pauc) || (top.children t).any good) := by
      unfold groupState
      congr 1
      rw [Bool.eq_iff_iff, any_eq_true, any_eq_true]
      simp only [h.mem_children_iff, Bool.and_eq_true, decide_eq_true_eq, and_assoc]
    have hchildren : (top.children t).isEmpty = false := by
      obtain ⟨c, hc, hsame⟩ := hmet
      have hc := h.mem_children_iff.mpr ⟨hc, hsame⟩
      exact Bool.eq_false_iff.mpr fun hnil => by
        rw [List.isEmpty_iff.mp hnil] at hc
        exact not_mem_nil hc
    rw [hchildren, Bool.false_or, ← hgroup] at heq
    rw [hstate]
    cases hfalse : groupState top good done t with
    | false =>
      -- all children are bad, and the rules are not asked
      rw [hfalse, Bool.and_false] at heq
      rw [hfalse] at hstate
      rw [if_pos rfl, heq, ← hstate, update_eq_self]
      exact ⟨_, rfl⟩
    | true =>
      rw [hfalse, Bool.and_true] at heq
      rw [if_neg (by simp), heq]
      exact ⟨_, rfl⟩
  · have hchildren : top.children t = [] := by
      refine eq_nil_iff_forall_not_mem.mpr fun c hc => ?_
      exact hmet ⟨c, h.mem_children_iff.mp hc⟩
    rw [hchildren, isEmpty_nil, Bool.true_or, Bool.and_true] at heq
    rw [hs.unseen t h.notMem (Or.inl hmet), if_neg (by simp), heq]
    exact ⟨_, rfl⟩

theorem Place.firstPass_spec (h : Place top chip done t todo) (hgood : GoodEquation top chip good)
    (hinv : FirstInv top good done s) :
    ∃ s', firstPass top s t = some s' ∧ FirstInv top good (done ++ [t]) s' := by
  have hs := h.switched hinv
  obtain ⟨deconfigTargets, hcheck⟩ := h.isDescFunctional_eq hgood hs
  unfold firstPass
  dsimp only
  rw [hcheck, hs.parent]
  dsimp only
  rw [if_neg (h.tree.known t h.mem)]
  refine ⟨_, rfl, ⟨fun x hx => ?_, ?_, fun hnil => ?_, fun _ => ?_, fun x hx hmet hxp => ?_,
    fun x hx hor => ?_⟩⟩
  · by_cases hxt : x = t
    · subst hxt
      exact update_self _ _ _
    · have hx := (mem_append.mp hx).resolve_right fun h => hxt (mem_singleton.mp h)
      exact (update_of_ne hxt _ _).trans (hs.seen x hx)
  · simp
  · simp at hnil
  · dsimp only
    rw [groupState_append, ← hs.state]
    cases (changeParent s (top.getImmediateParentByAffinity t)).parentState <;>
      cases good t <;> simp
  · simp only [mem_append, mem_singleton, not_or] at hx
    have hmet := (met_append.mp hmet).resolve_right fun heq => hxp heq.symm
    rw [groupState_append_of_ne fun heq => hxp heq.symm]
    exact (update_of_ne hx.2 _ _).trans (hs.closed x hx.1 hmet hxp)
  · simp only [mem_append, mem_singleton, not_or] at hx
    refine (update_of_ne hx.2 _ _).trans (hs.unseen x hx.1 ?_)
    exact hor.imp (fun hnot hmet => hnot (met_append.mpr (Or.inl hmet))) id

/-- The whole first pass: the state of every descendant is that of its subtree. -/
theorem firstPass_run (htree : Tree top chip) (hgood : GoodEquation top chip good)
    (hperm : (done ++ todo).Perm (top.descendants chip))
    (hsorted : (done ++ todo).Pairwise (Follows top)) (hinv : FirstInv top good done s) :
    ∃ s', todo.foldlM (firstPass top) s = some s' ∧
      ∀ t ∈ top.descendants chip, s'.targetStates t = some (good t) := by
  induction todo generalizing done s with
  | nil =>
    rw [append_nil] at hperm
    exact ⟨s, rfl, fun t ht => hinv.seen t (hperm.mem_iff.mpr ht)⟩
  | cons t todo ih =>
    have hplace : Place top chip done t todo := ⟨htree, hperm, hsorted⟩
    obtain ⟨s', hstep, hinv'⟩ := hplace.firstPass_spec hgood hinv
    rw [append_cons] at hperm hsorted
    obtain ⟨s'', hrun, hseen⟩ := ih hperm hsorted hinv'
    exact ⟨s'', by rw [foldlM_cons, hstep]; exact hrun, hseen⟩

end

/-! ## The second pass -/

/-- The states between two points of the second pass: some targets below this size of path that
should not be functional have become bad. -/
def Lowered (top : Targets) (chip : TargetHandle) (size : Nat) (states states' : PgStateMap) :
    Prop :=
  ∀ x, states' x = states x ∨ x ∈ top.descendants chip ∧ size < top.affinityPathSize x ∧
    ¬Functional top chip x ∧ states' x = some false

section
variable {top : Targets} {chip : TargetHandle} {m n : Nat} {states states' states'' : PgStateMap}

theorem Lowered.refl : Lowered top chip n states states := fun _ => Or.inl rfl

theorem Lowered.trans (h : Lowered top chip n states states')
    (h' : Lowered top chip n states' states'') : Lowered top chip n states states'' := by
  intro x
  rcases h' x with heq | hlow
  · rw [heq]
    exact h x
  · exact Or.inr hlow

theorem Lowered.mono (h : Lowered top chip m states states') (hle : n ≤ m) :
    Lowered top chip n states states' := fun x =>
  (h x).imp id fun ⟨hx, hlt, hrest⟩ => ⟨hx, Nat.lt_of_le_of_lt hle hlt, hrest⟩

theorem Lowered.bad (h : Lowered top chip n states states') {x : TargetHandle}
    (hx : states x = some false) : states' x = some false :=
  (h x).elim (fun heq => heq.trans hx) fun hlow => hlow.2.2.2

theorem Lowered.isSome (h : Lowered top chip n states states') {x : TargetHandle}
    (hx : (states x).isSome) : (states' x).isSome := by
  rcases h x with heq | ⟨-, -, -, heq⟩
  · rwa [heq]
  · rw [heq]
    rfl

theorem Lowered.above (h : Lowered top chip n states states') {x : TargetHandle}
    (hx : top.affinityPathSize x ≤ n) : states' x = states x :=
  (h x).resolve_right fun hlow => Nat.not_lt.mpr hx hlow.2.1

end

section
variable {top : Targets} {chip : TargetHandle}

/-- What is below a target that should not be functional should not be either. -/
theorem Tree.not_functional_child (htree : Tree top chip) {t c : TargetHandle}
    (ht : t ∈ top.descendants chip) (hc : c ∈ top.children t) (h : ¬Functional top chip t) :
    ¬Functional top chip c := by
  obtain ⟨hdesc, rfl⟩ := (htree.coincide t ht c).mp hc
  rw [functional_iff htree hdesc]
  rintro ⟨-, hchip | hparent⟩
  · rw [hchip] at ht
    exact htree.apart ht
  · exact h hparent

/-- The recursion makes all children of a bad target bad, and nothing that should be
functional. -/
theorem markChildrenNonFunctional_spec (htree : Tree top chip) {maxSize : Nat}
    (hmax : ∀ t ∈ top.descendants chip, top.affinityPathSize t ≤ maxSize) {rounds : Nat}
    {t : TargetHandle} (ht : t ∈ top.descendants chip)
    (hrounds : maxSize < top.affinityPathSize t + rounds) (hbad : ¬Functional top chip t)
    {states : PgStateMap} (hsome : ∀ x ∈ top.descendants chip, (states x).isSome)
    (hstate : states t = some false) :
    ∃ states', markChildrenNonFunctional top rounds t states = some states' ∧
      Lowered top chip (top.affinityPathSize t) states states' ∧
      ∀ c ∈ top.children t, states' c = some false := by
  induction rounds generalizing t states with
  | zero =>
    have hle := hmax t ht
    omega
  | succ rounds ih =>
    unfold markChildrenNonFunctional
    rw [if_pos hstate]
    clear hstate
    -- over the children, any of them
    have hchildren : ∀ c ∈ top.children t, c ∈ top.descendants chip ∧
        top.affinityPathSize c = top.affinityPathSize t + 1 := by
      intro c hc
      obtain ⟨hdesc, rfl⟩ := (htree.coincide t ht c).mp hc
      exact ⟨hdesc, htree.path c hdesc⟩
    have hbads : ∀ c ∈ top.children t, ¬Functional top chip c :=
      fun c hc => htree.not_functional_child ht hc hbad
    generalize top.children t = cs at hchildren hbads
    induction cs generalizing states with
    | nil => exact ⟨states, rfl, .refl, fun c hc => absurd hc not_mem_nil⟩
    | cons c cs ihcs =>
      obtain ⟨hdesc, hsize⟩ := hchildren c mem_cons_self
      have hbadc := hbads c mem_cons_self
      obtain ⟨states1, hstep, hlow, hc⟩ : ∃ states1,
          (if states c = some false then some states
            else if (top.children c).isEmpty then
              some (update states c (some false))
            else markChildrenNonFunctional top rounds c
              (update states c (some false))) = some states1 ∧
          Lowered top chip (top.affinityPathSize t) states states1 ∧
          states1 c = some false := by
        by_cases hfalse : states c = some false
        · exact ⟨states, if_pos hfalse, .refl, hfalse⟩
        · have hupdate : Lowered top chip (top.affinityPathSize t) states
              (update states c (some false)) := by
            intro x
            by_cases hx : x = c
            · subst hx
              exact Or.inr ⟨hdesc, by omega, hbadc, update_self _ _ _⟩
            · exact Or.inl (update_of_ne hx _ _)
          have hself : update states c (some false) c = some false :=
            update_self _ _ _
          rw [if_neg hfalse]
          split
          · exact ⟨_, rfl, hupdate, hself⟩
          · obtain ⟨states1, hmark, hlow, -⟩ := @ih c hdesc (by omega) hbadc _
              (fun x hx => hupdate.isSome (hsome x hx)) hself
            exact ⟨states1, hmark, hupdate.trans (hlow.mono (by omega)), hlow.bad hself⟩
      obtain ⟨states2, hrest, hlow', hcs⟩ := @ihcs states1
        (fun x hx => hlow.isSome (hsome x hx))
        (fun x hx => hchildren x (mem_cons_of_mem _ hx))
        (fun x hx => hbads x (mem_cons_of_mem _ hx))
      refine ⟨states2, ?_, hlow.trans hlow', forall_mem_cons.mpr ⟨hlow'.bad hc, hcs⟩⟩
      rw [foldlM_cons]
      exact (congrArg (Option.bind · _) hstep).trans hrest

/-- The second pass behind the targets `done`: the states are between what should be functional
and what is good for itself, and the children of a bad target are bad. -/
structure SecondInv (top : Targets) (chip : TargetHandle) (done : List TargetHandle)
    (states : PgStateMap) : Prop where
  known : ∀ t ∈ top.descendants chip, (states t).isSome
  functional : ∀ t ∈ top.descendants chip, states t = some false → ¬Functional top chip t
  good : ∀ t ∈ top.descendants chip, states t = some true → Good top t
  children : ∀ t ∈ done, ¬Functional top chip t → ∀ c ∈ top.children t, states c = some false

theorem SecondInv.lowered {done : List TargetHandle} {states states' : PgStateMap} {n : Nat}
    (h : SecondInv top chip done states) (hlow : Lowered top chip n states states') :
    SecondInv top chip done states' where
  known t ht := hlow.isSome (h.known t ht)
  functional t ht hfalse := by
    rcases hlow t with heq | ⟨-, -, hnot, -⟩
    · exact h.functional t ht (heq.symm.trans hfalse)
    · exact hnot
  good t ht htrue := by
    rcases hlow t with heq | ⟨-, -, -, heq⟩
    · exact h.good t ht (heq.symm.trans htrue)
    · rw [heq] at htrue
      cases htrue
  children t ht hnot c hc := hlow.bad (h.children t ht hnot c hc)

theorem SecondInv.state_iff (htree : Tree top chip) {done : List TargetHandle}
    {states : PgStateMap} {t : TargetHandle} (h : SecondInv top chip done states)
    (ht : t ∈ top.descendants chip)
    (hparent : top.getImmediateParentByAffinity t = chip ∨
      top.getImmediateParentByAffinity t ∈ done) {b : Bool} (hb : states t = some b) :
    b = true ↔ Functional top chip t := by
  cases b with
  | false => exact iff_of_false Bool.false_ne_true (h.functional t ht hb)
  | true =>
    refine iff_of_true rfl ((functional_iff htree ht).mpr ⟨h.good t ht hb, ?_⟩)
    rcases htree.parent t ht with hchip | hdesc
    · exact Or.inl hchip
    · refine hparent.imp id fun hdone => Classical.not_not.mp fun hnot => ?_
      -- a bad parent would have taken it along
      have hchild := (htree.coincide _ hdesc t).mpr ⟨ht, rfl⟩
      have hfalse := h.children _ hdone hnot t hchild
      rw [hb] at hfalse
      cases hfalse

/-- One round of the second pass: the target keeps its state, and its children follow. -/
theorem SecondInv.mark (htree : Tree top chip) {maxSize rounds : Nat}
    (hmax : ∀ t ∈ top.descendants chip, top.affinityPathSize t ≤ maxSize)
    {done : List TargetHandle} {states : PgStateMap} {t : TargetHandle}
    (h : SecondInv top chip done states) (ht : t ∈ top.descendants chip)
    (hparent : top.getImmediateParentByAffinity t = chip ∨
      top.getImmediateParentByAffinity t ∈ done)
    (hrounds : maxSize < top.affinityPathSize t + rounds) :
    ∃ states' b, markChildrenNonFunctional top rounds t states = some states' ∧
      states' t = some b ∧ (b = true ↔ Functional top chip t) ∧
      SecondInv top chip (t :: done) states' := by
  obtain ⟨b, hb⟩ := Option.isSome_iff_exists.mp (h.known t ht)
  have hiff := h.state_iff htree ht hparent hb
  cases b with
  | true =>
    refine ⟨states, true, ?_, hb, hiff, h.known, h.functional, h.good, ?_⟩
    · obtain ⟨rounds, rfl⟩ : ∃ n, rounds = n + 1 := by
        have hle := hmax t ht
        exact ⟨rounds - 1, by omega⟩
      unfold markChildrenNonFunctional
      rw [hb, if_neg (by simp)]
    · exact forall_mem_cons.mpr ⟨fun hnot => absurd (hiff.mp rfl) hnot, h.children⟩
  | false =>
    have hnot : ¬Functional top chip t := fun hfun => Bool.false_ne_true (hiff.mpr hfun)
    obtain ⟨states', hmark, hlow, hchildren⟩ := markChildrenNonFunctional_spec htree hmax ht
      hrounds hnot h.known hb
    obtain ⟨hknown, hfunctional, hgood, hrest⟩ := h.lowered hlow
    exact ⟨states', false, hmark, (hlow.above (Nat.le_refl _)).trans hb, hiff, hknown,
      hfunctional, hgood, forall_mem_cons.mpr ⟨fun _ => hchildren, hrest⟩⟩

/-- The whole second pass: each target is marked once, and as it should be. -/
theorem secondPass_run (htree : Tree top chip) {rounds : Nat}
    (hrounds : ∀ t ∈ top.descendants chip, top.affinityPathSize t ≤ rounds)
    {rest done : List TargetHandle} (hperm : (rest.reverse ++ done).Perm (top.descendants chip))
    (hsorted : (rest.reverse ++ done).Pairwise (Follows top)) {out : Outcome}
    (hinv : SecondInv top chip done out.targetStates) :
    ∃ out' marks, secondPass rounds top true false rest out = some out' ∧
      out'.missing = out.missing ∧ out'.marks = out.marks ++ marks ∧
      marks.map Mark.target = rest ∧
      ∀ m ∈ marks, m.functional = true ↔ Functional top chip m.target := by
  induction rest generalizing done out with
  | nil =>
    exact ⟨out, [], rfl, rfl, (append_nil _).symm, rfl, fun m hm => absurd hm not_mem_nil⟩
  | cons t rest ih =>
    rw [reverse_cons, append_assoc, singleton_append] at hperm hsorted
    have hplace : Place top chip rest.reverse t done := ⟨htree, hperm, hsorted⟩
    have hparent : top.getImmediateParentByAffinity t = chip ∨
        top.getImmediateParentByAffinity t ∈ done := by
      refine (htree.parent t hplace.mem).imp id fun hdesc => ?_
      have hmem := (mem_append.mp (hperm.mem_iff.mpr hdesc)).resolve_left
        hplace.parent_notMem
      refine (mem_cons.mp hmem).resolve_left fun hself => ?_
      have hpath := htree.path t hplace.mem
      rw [hself] at hpath
      omega
    have hpath := htree.path t hplace.mem
    have hlt : rounds < top.affinityPathSize t + rounds := by omega
    obtain ⟨states', b, hmark, hb, hiff, hinv'⟩ :=
      hinv.mark htree hrounds hplace.mem hparent hlt
    unfold secondPass
    rw [if_pos rfl, hmark]
    simp only [Option.bind_eq_bind, Option.bind_some, hb]
    obtain ⟨out', marks, hrun, hmissing, hmarks, htargets, hall⟩ :=
      @ih (t :: done) hperm hsorted
        { out with
          targetStates := states'
          infoTargets := if !b && !false then out.infoTargets ++ [t] else out.infoTargets
          createInfoLog := out.createInfoLog || (!b && !false)
          marks := if false then out.marks else out.marks ++ [markOf top true t b] } hinv'
    refine ⟨out', markOf top true t b :: marks, hrun, hmissing, ?_, ?_, ?_⟩
    · rw [hmarks]
      simp
    · rw [map_cons, htargets]
      unfold markOf
      split <;> rfl
    · refine forall_mem_cons.mpr ⟨?_, hall⟩
      unfold markOf
      split <;> exact hiff

end

/-! ## Both passes -/

theorem FirstInv.nil {top : Targets} {good : TargetHandle → Bool}
    {deconfigTargets : Option (List TargetHandle)} :
    FirstInv top good [] ⟨fun _ => none, deconfigTargets, nullptr, false⟩ where
  seen _ ht := absurd ht not_mem_nil
  last _ ht := by cases ht
  start _ := rfl
  state h := absurd rfl h
  closed _ _ hmet := by
    obtain ⟨c, hc, -⟩ := hmet
    cases hc
  unseen _ _ _ := rfl

theorem SecondInv.nil {top : Targets} {chip : TargetHandle} {good : TargetHandle → Bool}
    {states : PgStateMap} (hgood : ∀ t, good t = true ↔ Good top t)
    (hstates : ∀ t ∈ top.descendants chip, states t = some (good t)) :
    SecondInv top chip [] states where
  known t ht := by
    rw [hstates t ht]
    rfl
  functional t ht hfalse hfun := by
    rw [hstates t ht, (hgood t).mpr hfun.1] at hfalse
    cases hfalse
  good t ht htrue := by
    rw [hstates t ht] at htrue
    exact (hgood t).mp (Option.some.inj htrue)
  children _ ht := absurd ht not_mem_nil

/-- Every descendant of a functional chip is marked once, and it is marked functional exactly
when it is good for itself and all its ancestors below the chip are. -/
theorem checkPartialGoodForDescendants_marks (top : Targets) (chip : TargetHandle)
    (createInfoLog : Bool) (deconfigTargets : Option (List TargetHandle)) (rounds : Nat)
    (htree : Tree top chip)
    (hrounds : ∀ t ∈ top.descendants chip, top.affinityPathSize t ≤ rounds) :
    ∃ out, checkPartialGoodForDescendants rounds top chip true createInfoLog false deconfigTargets
        = some out ∧
      out.missing = none ∧ (out.marks.map Mark.target).Perm (top.descendants chip) ∧
      ∀ m ∈ out.marks, m.functional = true ↔ Functional top chip m.target := by
  classical
  have hdecide : ∀ t, decide (Good top t) = true ↔ Good top t := fun t => decide_eq_true_iff
  have hgood : GoodEquation top chip fun t => decide (Good top t) := by
    intro t _
    rw [Bool.eq_iff_iff, decide_eq_true_eq, good_iff]
    simp only [Bool.and_eq_true, Bool.or_eq_true, List.isEmpty_iff, decide_eq_true_eq,
      any_eq_true]
  have hperm := QSort.sort_perm (before top) (top.descendants chip)
  have hsorted := pairwise_sort top (top.descendants chip)
  unfold checkPartialGoodForDescendants
  simp only [Bool.false_eq_true, if_false, if_true, append_nil]
  generalize QSort.sort (before top) (top.descendants chip) = descs at hperm hsorted ⊢
  obtain ⟨s, hfirst, hstates⟩ :=
    @firstPass_run top chip _ [] descs _ htree hgood hperm hsorted (@FirstInv.nil _ _ deconfigTargets)
  rw [hfirst]
  simp only [Option.bind_eq_bind, Option.bind_some]
  have hinv := SecondInv.nil hdecide hstates
  rw [← append_nil descs, ← reverse_reverse descs] at hperm hsorted
  obtain ⟨out, marks, hsecond, hmissing, hmarks, htargets, hall⟩ :=
    @secondPass_run top chip htree rounds hrounds descs.reverse [] hperm hsorted
      ⟨s.targetStates, s.deconfigTargets, [], [], createInfoLog, none, none⟩ hinv
  rw [hsecond]
  simp only [Option.bind_some]
  rw [nil_append] at hmarks
  rw [append_nil] at hperm
  refine ⟨_, rfl, hmissing, ?_, ?_⟩
  · dsimp only
    rw [hmarks, htargets]
    exact (reverse_perm _).symm.trans hperm
  · dsimp only
    rw [hmarks]
    exact hall

/-- A chip with two units, the second one a PAUC, that have a bad unit each. -/
def twoUnits : Targets where
  type t := if t = 4 then .pauc else .other
  affinityPathSize t := if t = 1 then 1 else if t = 2 ∨ t = 4 then 2 else 3
  getImmediateParentByAffinity t := if t = 3 then 2 else if t = 5 then 4 else 1
  children t := [2, 3, 4, 5].filter fun c => (if c = 3 then 2 else if c = 5 then 4 else 1) = t
  descendants _ := [2, 3, 4, 5]
  hasProcParent _ := true
  hasPervParent _ := true
  findRulesForTarget t := some [⟨fun _ => true, true, decide (t = 2 ∨ t = 4)⟩]
  chipUnit _ := some 0

theorem twoUnits_tree : Tree twoUnits 1 where
  nodup := by decide
  apart := by decide
  known := by decide
  parent := by decide
  path := by decide
  coincide t _ c := by
    unfold twoUnits
    rw [mem_filter, decide_eq_true_eq]

/-- Only the PAUC is functional. -/
theorem checkPartialGoodForDescendants_twoUnits :
    ∃ out, checkPartialGoodForDescendants 3 twoUnits 1 true false false none = some out ∧
      out.missing = none ∧ (out.marks.map Mark.target).Perm [2, 3, 4, 5] ∧
      ∀ m ∈ out.marks, m.functional = true ↔ Functional twoUnits 1 m.target :=
  checkPartialGoodForDescendants_marks twoUnits 1 false none 3 twoUnits_tree (by decide)

end Hostboot.Hwas.PartialGood
