import Hostboot.Lib.Worklist
import Mathlib.Data.Fintype.Card
import Mathlib.Data.Prod.Lex

/-!
# Present by association

`presentByAssoc` deconfigures the memory targets that have no functional
parent or no functional child of a type that a rule demands.  It works on a
list of targets.  A target that fails a rule is deconfigured together with its
child chiplets and its affinity children, which do not pass through the list,
and its own relatives are pushed to be looked at again.

The lists that the target service returns are a parameter, one list for each
association, with every level already in it.
-/

namespace Hostboot.Hwas.Present

open List

/-! ## Targets -/

/-- `TARGETING::CLASS`, as far as the functions of this module ask for it. -/
inductive TargetClass
  | chip | unit | logicalCard | asic | other
deriving DecidableEq, Repr

/-- `TARGETING::TYPE`, as far as the functions of this module ask for it. -/
inductive TargetType
  | mc | mi | mcc | omic | omi | pauc | ocmbChip | memPort | pmic | genericI2cDevice
  | tempSensor | powerIc | dimm | perv | other
deriving DecidableEq, Repr

/-- `TargetService::ASSOCIATION_TYPE`. -/
inductive Association
  | child | childByAffinity | parentByAffinity | pervasiveChild | parentPervasive
  | omiChild | omicParent | paucChild | paucParent
deriving DecidableEq, Repr

/-- `ResourceState`, the states that `getAffinityTargets` accepts. -/
inductive ResourceState
  | all | present | functional
deriving DecidableEq, Repr

/-- `DeconfigGard::DeconfiguredByReason`.  `plid` is the identifier of an
error log, which the same field may hold. -/
inductive DeconfiguredByReason
  | invalid
  | noChildMi | noParentMc | noChildOmic | noChildMcc | noParentMi | noChildOmi | noParentOmic
  | noParentPauc | noParentMcc | noChildOcmbChip | noParentOmi | noChildMemPort
  | noParentOcmbChip | noChildDimm | noParentMemPort | noChildPmic
  | configuredByResourceRecovery
  | plid (n : UInt32)
deriving DecidableEq, Repr

/-- `HwasState`, the fields that `enableHwasState` reads and writes. -/
structure HwasState where
  deconfiguredByEid : DeconfiguredByReason
  poweredOn : Bool
  present : Bool
  functional : Bool
  specdeconfig : Bool
deriving DecidableEq, Repr

/-- The targets of a system.  `associated a t` are the targets of all levels
that the target service finds from `t` by `a`. -/
structure Targets (T : Type*) where
  targetClass : T → TargetClass
  targetType : T → TargetType
  associated : Association → T → List T

variable {T : Type*}

/-- `PredicateCTM`, with `none` for `CLASS_NA` and `TYPE_NA`. -/
def predicateCtm (top : Targets T) (cls : Option TargetClass) (ty : Option TargetType)
    (t : T) : Bool :=
  cls.all (top.targetClass t == ·) && ty.all (top.targetType t == ·)

/-- The filter that `getAffinityTargets` makes of a `ResourceState`. -/
def stateFilter (hwas : T → HwasState) : ResourceState → T → Bool
  | .all, _ => true
  | .present, t => (hwas t).present
  | .functional, t => (hwas t).functional

/-- `getAffinityTargets`.  The functions `get…TargetsByState` are this
function with an association of their own. -/
def getAffinityTargets (top : Targets T) (hwas : T → HwasState) (t : T)
    (cls : Option TargetClass) (ty : Option TargetType) (state : ResourceState)
    (association : Association) : List T :=
  (top.associated association t).filter fun x =>
    predicateCtm top cls ty x && stateFilter hwas state x

def getChildChiplets (top : Targets T) (hwas : T → HwasState) (chip : T) (ty : Option TargetType)
    (functional : Bool) : List T :=
  (top.associated .child chip).filter fun x =>
    predicateCtm top (some .unit) ty x && (!functional || (hwas x).functional)

def getChildAffinityTargets (top : Targets T) (hwas : T → HwasState) (t : T)
    (cls : Option TargetClass) (ty : Option TargetType) (functional : Bool) : List T :=
  getAffinityTargets top hwas t cls ty (if functional then .functional else .all) .childByAffinity

variable {top : Targets T} {t x : T}

theorem mem_getAffinityTargets {hwas : T → HwasState} {ty : TargetType} {a : Association} :
    x ∈ getAffinityTargets top hwas t none (some ty) .functional a ↔
      x ∈ top.associated a t ∧ top.targetType x = ty ∧ (hwas x).functional = true := by
  simp [getAffinityTargets, predicateCtm, stateFilter]

/-! ## Deconfiguring a target -/

section Loop

variable [DecidableEq T]

def enableHwasState (hwas : T → HwasState) (t : T) (present functional : Bool)
    (errlEid : DeconfiguredByReason) : T → HwasState :=
  let hwasState := hwas t
  let deconfiguredByEid :=
    if (functional = false ∧ present = true) ∨ errlEid = .configuredByResourceRecovery then
      errlEid
    else hwasState.deconfiguredByEid
  let specdeconfig := if functional then false else hwasState.specdeconfig
  Function.update hwas t
    { deconfiguredByEid, poweredOn := true, present, functional, specdeconfig }

/-- A loop that deconfigures each target of a list. -/
def deconfigAll (hwas : T → HwasState) (list : List T) (reason : DeconfiguredByReason) :
    T → HwasState :=
  list.foldl (fun h x => enableHwasState h x true false reason) hwas

/-- The last loop of `deconfigPresentByAssoc`: a parent pervasive target that
has no functional target left is deconfigured. -/
def deconfigPervasive (top : Targets T) (hwas : T → HwasState) (pervs : List T)
    (reason : DeconfiguredByReason) : T → HwasState :=
  pervs.foldl (fun h p =>
    if (getAffinityTargets top h p none none .functional .pervasiveChild).isEmpty then
      enableHwasState h p true false reason
    else h) hwas

def deconfigPresentByAssoc (top : Targets T) (hwas : T → HwasState) (t : T)
    (reason : DeconfiguredByReason) : T → HwasState :=
  let hwas := deconfigAll hwas (getChildChiplets top hwas t none true) reason
  let hwas := deconfigAll hwas (getChildAffinityTargets top hwas t none none true) reason
  let hwas := enableHwasState hwas t true false reason
  deconfigPervasive top hwas
    (getAffinityTargets top hwas t (some .unit) (some .perv) .functional .parentPervasive) reason

/-- The targets that go with `t` when it is deconfigured, pervasive targets
apart. -/
def Taken (top : Targets T) (t x : T) : Prop :=
  x = t ∨ (x ∈ top.associated .child t ∧ top.targetClass x = .unit) ∨
    x ∈ top.associated .childByAffinity t

instance (top : Targets T) (t x : T) : Decidable (Taken top t x) :=
  inferInstanceAs (Decidable (_ ∨ _ ∨ _))

variable {hwas : T → HwasState} {x : T} {reason : DeconfiguredByReason}

theorem functional_enableHwasState {t : T} :
    (enableHwasState hwas t true false reason x).functional = true ↔
      (hwas x).functional = true ∧ x ≠ t := by
  unfold enableHwasState
  by_cases hx : x = t
  · simp [hx]
  · simp [hx]

theorem functional_deconfigAll {list : List T} :
    (deconfigAll hwas list reason x).functional = true ↔
      (hwas x).functional = true ∧ x ∉ list := by
  induction list generalizing hwas with
  | nil => simp [deconfigAll]
  | cons y list ih =>
    have hfold : deconfigAll hwas (y :: list) reason =
        deconfigAll (enableHwasState hwas y true false reason) list reason := rfl
    rw [hfold, ih, functional_enableHwasState, mem_cons]
    tauto

theorem functional_deconfigPervasive {top : Targets T} {pervs : List T} (hx : x ∉ pervs) :
    (deconfigPervasive top hwas pervs reason x).functional = (hwas x).functional := by
  induction pervs generalizing hwas with
  | nil => rfl
  | cons p pervs ih =>
    have hne : x ≠ p := fun heq => hx (heq ▸ mem_cons_self)
    have hrest : x ∉ pervs := fun hmem => hx (mem_cons_of_mem p hmem)
    show (deconfigPervasive top _ pervs reason x).functional = _
    rw [ih hrest]
    dsimp only
    by_cases hempty :
        (getAffinityTargets top hwas p none none .functional .pervasiveChild).isEmpty = true
    · rw [if_pos hempty]
      unfold enableHwasState
      simp [hne]
    · rw [if_neg hempty]

theorem functional_deconfigPresentByAssoc {top : Targets T} {t : T}
    (hperv : top.targetType x ≠ .perv) :
    (deconfigPresentByAssoc top hwas t reason x).functional = true ↔
      (hwas x).functional = true ∧ ¬ Taken top t x := by
  unfold deconfigPresentByAssoc
  rw [functional_deconfigPervasive]
  · rw [functional_enableHwasState, functional_deconfigAll, functional_deconfigAll]
    unfold Taken getChildChiplets getChildAffinityTargets getAffinityTargets
    simp only [predicateCtm, stateFilter, Option.all_none, Option.all_some, Bool.true_and,
      Bool.and_true, if_true, mem_filter, Bool.not_true, Bool.false_or, Bool.and_eq_true,
      beq_iff_eq, functional_deconfigAll]
    tauto
  · intro hmem
    have hty := (mem_filter.mp hmem).2
    simp only [predicateCtm, Option.all_some, Bool.and_eq_true, beq_iff_eq] at hty
    exact hperv hty.1.2

/-! ## The rules and the loop -/

/-- `parentCheck_t`. -/
inductive ParentCheck
  | noCheckParent | checkParent
deriving DecidableEq, Repr

/-- `presentRule`.  The accessors are given by the association they ask for. -/
structure PresentRule where
  parentType : TargetType
  childType : TargetType
  parentDeconfigReason : DeconfiguredByReason
  childDeconfigReason : DeconfiguredByReason
  checkParent : ParentCheck := .checkParent
  getParent : Association := .parentByAffinity
  getChildren : Association := .childByAffinity
deriving DecidableEq, Repr

/-- `l_rules`.  `pmicsInBlueprint` is the result of `arePmicsInBlueprint`. -/
def presentRules (pmicsInBlueprint : Bool) : List PresentRule :=
  [ { parentType := .mc, childType := .mi,
      parentDeconfigReason := .noChildMi, childDeconfigReason := .noParentMc },
    { parentType := .mc, childType := .omic,
      parentDeconfigReason := .noChildOmic, childDeconfigReason := .noParentMc },
    { parentType := .mi, childType := .mcc,
      parentDeconfigReason := .noChildMcc, childDeconfigReason := .noParentMi },
    -- symmetrical, with accessors of its own
    { parentType := .omic, childType := .omi,
      parentDeconfigReason := .noChildOmi, childDeconfigReason := .noParentOmic,
      getParent := .omicParent, getChildren := .omiChild },
    { parentType := .pauc, childType := .omic,
      parentDeconfigReason := .invalid, childDeconfigReason := .noParentPauc,
      checkParent := .noCheckParent, getParent := .paucParent, getChildren := .paucChild },
    { parentType := .mcc, childType := .omi,
      parentDeconfigReason := .noChildOmi, childDeconfigReason := .noParentMcc },
    { parentType := .omi, childType := .ocmbChip,
      parentDeconfigReason := .noChildOcmbChip, childDeconfigReason := .noParentOmi },
    { parentType := .ocmbChip, childType := .memPort,
      parentDeconfigReason := .noChildMemPort, childDeconfigReason := .noParentOcmbChip },
    { parentType := .ocmbChip, childType := .pmic,
      parentDeconfigReason := .invalid, childDeconfigReason := .noParentOcmbChip,
      checkParent := .noCheckParent },
    { parentType := .ocmbChip, childType := .genericI2cDevice,
      parentDeconfigReason := .invalid, childDeconfigReason := .noParentOcmbChip,
      checkParent := .noCheckParent },
    { parentType := .ocmbChip, childType := .tempSensor,
      parentDeconfigReason := .invalid, childDeconfigReason := .noParentOcmbChip,
      checkParent := .noCheckParent },
    { parentType := .ocmbChip, childType := .powerIc,
      parentDeconfigReason := .invalid, childDeconfigReason := .noParentOcmbChip,
      checkParent := .noCheckParent },
    { parentType := .memPort, childType := .dimm,
      parentDeconfigReason := .noChildDimm, childDeconfigReason := .noParentMemPort } ] ++
  if pmicsInBlueprint then
    [ { parentType := .ocmbChip, childType := .pmic,
        parentDeconfigReason := .noChildPmic, childDeconfigReason := .noParentOcmbChip } ]
  else []

/-- What the loop over the rules carries for one target. -/
structure Pass (T : Type*) where
  hwas : T → HwasState
  deconfigured : T → Bool
  allChildren : List T
  allParents : List T

/-- The body of the loop over the rules.  `relative` is the list that must not
be empty, with the reason; it is `none` where the rule says nothing about `t`.
Both lists are taken as the targets are at this point of the loop. -/
def checkRule (top : Targets T) (t : T) (p : Pass T) (r : PresentRule) : Pass T :=
  let childList := getAffinityTargets top p.hwas t none (some r.childType) .functional r.getChildren
  let parentList := getAffinityTargets top p.hwas t none (some r.parentType) .functional r.getParent
  let relative :=
    if r.parentType = top.targetType t ∧ r.checkParent = .checkParent then
      some (childList, r.parentDeconfigReason)
    else if r.childType = top.targetType t then some (parentList, r.childDeconfigReason)
    else none
  match relative with
  | none => p
  | some (relativeList, reason) =>
    let p := { p with
      allChildren := p.allChildren ++ childList
      allParents := p.allParents ++ parentList }
    if relativeList.isEmpty then
      { p with
        hwas := deconfigPresentByAssoc top p.hwas t reason
        deconfigured := Function.update p.deconfigured t true }
    else p

/-- The state of `presentByAssoc`.  The head of `targets` is the back of the
source's vector, and `deconfigured` is its map. -/
structure State (T : Type*) where
  targets : List T
  hwas : T → HwasState
  deconfigured : T → Bool

/-- One round of the loop of `presentByAssoc`. -/
def step (top : Targets T) (rules : List PresentRule) (s : State T) : State T :=
  match s.targets with
  | [] => s
  | t :: targets =>
    if s.deconfigured t then { s with targets }
    else
      let p := rules.foldl (checkRule top t) ⟨s.hwas, s.deconfigured, [], []⟩
      if p.deconfigured t then
        { targets := (p.allParents ++ p.allChildren).reverse ++ targets
          hwas := p.hwas
          deconfigured := p.deconfigured }
      else { targets, hwas := p.hwas, deconfigured := p.deconfigured }

end Loop

/-! ## What a rule demands -/

/-- `r` says something about `t`, as a parent or as a child. -/
def Applies (top : Targets T) (r : PresentRule) (t : T) : Prop :=
  (r.parentType = top.targetType t ∧ r.checkParent = .checkParent) ∨
    r.childType = top.targetType t

/-- `x` has no relative left of those that `r` demands. -/
def Fails (top : Targets T) (r : PresentRule) (live : T → Prop) (x : T) : Prop :=
  if r.parentType = top.targetType x ∧ r.checkParent = .checkParent then
    ∀ y ∈ top.associated r.getChildren x, top.targetType y = r.childType → ¬ live y
  else
    r.childType = top.targetType x ∧
      ∀ y ∈ top.associated r.getParent x, top.targetType y = r.parentType → ¬ live y

/-- `x` fails a rule. -/
def Unmet (top : Targets T) (rules : List PresentRule) (live : T → Prop) (x : T) : Prop :=
  ∃ r ∈ rules, Fails top r live x

/-- `y` is a parent or a child of `x` in a rule that says something about
`x`. -/
def Related (top : Targets T) (rules : List PresentRule) (x y : T) : Prop :=
  ∃ r ∈ rules, Applies top r x ∧
    ((y ∈ top.associated r.getChildren x ∧ top.targetType y = r.childType) ∨
      (y ∈ top.associated r.getParent x ∧ top.targetType y = r.parentType))

/-- The targets that the rules can speak of and that are functional. -/
def live (top : Targets T) (hwas : T → HwasState) (x : T) : Prop :=
  (hwas x).functional = true ∧ top.targetType x ≠ .perv

/-- No rule speaks of pervasive targets. -/
def NoPerv (rules : List PresentRule) : Prop :=
  ∀ r ∈ rules, r.parentType ≠ .perv ∧ r.childType ≠ .perv

theorem noPerv_presentRules (pmics : Bool) : NoPerv (presentRules pmics) := by
  unfold NoPerv
  cases pmics <;> decide

variable {r : PresentRule}

theorem Fails.applies {live : T → Prop} (h : Fails top r live x) : Applies top r x := by
  unfold Fails at h
  by_cases hparent : r.parentType = top.targetType x ∧ r.checkParent = .checkParent
  · exact Or.inl hparent
  · rw [if_neg hparent] at h
    exact Or.inr h.1

theorem Fails.mono {live live' : T → Prop} (hless : ∀ y, live' y → live y) (h : Fails top r live x)
    : Fails top r live' x := by
  unfold Fails at h ⊢
  by_cases hparent : r.parentType = top.targetType x ∧ r.checkParent = .checkParent
  · rw [if_pos hparent] at h ⊢
    exact fun y hy hty hl => h y hy hty (hless y hl)
  · rw [if_neg hparent] at h ⊢
    exact ⟨h.1, fun y hy hty hl => h.2 y hy hty (hless y hl)⟩

variable {rules : List PresentRule}

theorem Unmet.mono {live live' : T → Prop} (hless : ∀ y, live' y → live y)
    (h : Unmet top rules live x) : Unmet top rules live' x := by
  obtain ⟨r, hr, hfail⟩ := h
  exact ⟨r, hr, hfail.mono hless⟩

theorem relatives_isEmpty {hwas : T → HwasState} {ty : TargetType} {a : Association}
    (hperv : ty ≠ .perv) :
    (getAffinityTargets top hwas t none (some ty) .functional a).isEmpty = true ↔
      ∀ y ∈ top.associated a t, top.targetType y = ty → ¬ live top hwas y := by
  rw [List.isEmpty_iff, eq_nil_iff_forall_not_mem]
  constructor
  · intro hempty y hy hty hl
    exact hempty y (mem_getAffinityTargets.2 ⟨hy, hty, hl.1⟩)
  · intro hnone y hy
    have hm := mem_getAffinityTargets.1 hy
    exact hnone y hm.1 hm.2.1 ⟨hm.2.2, by rw [hm.2.1]; exact hperv⟩

/-! ## One target -/

variable [DecidableEq T]

/-- The round deconfigured `t`, and what goes with it. -/
structure Took (top : Targets T) (t : T) (p q : Pass T) : Prop where
  deconfigured : q.deconfigured = Function.update p.deconfigured t true
  live_iff : ∀ x, live top q.hwas x ↔ live top p.hwas x ∧ ¬ Taken top t x

/-- The round changed no target. -/
structure Idle (p q : Pass T) : Prop where
  deconfigured : q.deconfigured = p.deconfigured
  hwas : q.hwas = p.hwas

variable {p : Pass T}

theorem Took.trans {q r : Pass T} (hpq : Took top t p q) (hqr : Took top t q r) :
    Took top t p r where
  deconfigured := by
    rw [hqr.deconfigured, hpq.deconfigured, Function.update_idem]
  live_iff := by
    intro x
    rw [hqr.live_iff, hpq.live_iff]
    tauto

theorem Took.idle {q r : Pass T} (hpq : Took top t p q) (hqr : Idle q r) : Took top t p r where
  deconfigured := by rw [hqr.deconfigured, hpq.deconfigured]
  live_iff := by
    intro x
    rw [hqr.hwas, hpq.live_iff]

theorem checkRule_fails (hparent : r.parentType ≠ .perv) (hchild : r.childType ≠ .perv)
    (h : Fails top r (live top p.hwas) t) : Took top t p (checkRule top t p r) := by
  have hlive : ∀ reason x, live top (deconfigPresentByAssoc top p.hwas t reason) x ↔
      live top p.hwas x ∧ ¬ Taken top t x := by
    intro reason x
    unfold live
    constructor
    · intro hx
      have hx' := (functional_deconfigPresentByAssoc hx.2).mp hx.1
      exact ⟨⟨hx'.1, hx.2⟩, hx'.2⟩
    · intro hx
      exact ⟨(functional_deconfigPresentByAssoc hx.1.2).mpr ⟨hx.1.1, hx.2⟩, hx.1.2⟩
  unfold Fails at h
  unfold checkRule
  by_cases hside : r.parentType = top.targetType t ∧ r.checkParent = .checkParent
  · rw [if_pos hside] at h
    simp only [if_pos hside, if_pos ((relatives_isEmpty hchild).mpr h)]
    exact ⟨rfl, hlive _⟩
  · rw [if_neg hside] at h
    simp only [if_neg hside, if_pos h.1, if_pos ((relatives_isEmpty hparent).mpr h.2)]
    exact ⟨rfl, hlive _⟩

theorem checkRule_met (hparent : r.parentType ≠ .perv) (hchild : r.childType ≠ .perv)
    (h : ¬ Fails top r (live top p.hwas) t) : Idle p (checkRule top t p r) := by
  unfold Fails at h
  unfold checkRule
  by_cases hside : r.parentType = top.targetType t ∧ r.checkParent = .checkParent
  · rw [if_pos hside] at h
    simp only [if_pos hside, if_neg (mt (relatives_isEmpty hchild).mp h)]
    exact ⟨rfl, rfl⟩
  · rw [if_neg hside] at h
    by_cases hchildSide : r.childType = top.targetType t
    · have hsome := fun hnone => h ⟨hchildSide, hnone⟩
      simp only [if_neg hside, if_pos hchildSide, if_neg (mt (relatives_isEmpty hparent).mp hsome)]
      exact ⟨rfl, rfl⟩
    · simp only [if_neg hside, if_neg hchildSide]
      exact ⟨rfl, rfl⟩

/-- The loop over the rules: `t` is taken if and only if it fails a rule as
the targets were before the loop. -/
theorem rules_loop (top : Targets T) (t : T) (hperv : NoPerv rules) (p : Pass T) :
    (Unmet top rules (live top p.hwas) t ∧ Took top t p (rules.foldl (checkRule top t) p)) ∨
      (¬ Unmet top rules (live top p.hwas) t ∧ Idle p (rules.foldl (checkRule top t) p)) := by
  induction rules generalizing p with
  | nil =>
    have hno : ¬ Unmet top [] (live top p.hwas) t := fun ⟨r, hr, _⟩ => absurd hr not_mem_nil
    exact Or.inr ⟨hno, rfl, rfl⟩
  | cons r rules ih =>
    have hr := hperv r mem_cons_self
    have hrest : NoPerv rules := fun r' hr' => hperv r' (mem_cons_of_mem r hr')
    rw [foldl_cons]
    by_cases hfail : Fails top r (live top p.hwas) t
    · have hfirst := checkRule_fails hr.1 hr.2 hfail
      refine Or.inl ⟨⟨r, mem_cons_self, hfail⟩, ?_⟩
      rcases ih hrest (checkRule top t p r) with ⟨_, htook⟩ | ⟨_, hidle⟩
      · exact hfirst.trans htook
      · exact hfirst.idle hidle
    · have hfirst := checkRule_met hr.1 hr.2 hfail
      have hsame : Unmet top (r :: rules) (live top p.hwas) t ↔
          Unmet top rules (live top (checkRule top t p r).hwas) t := by
        rw [hfirst.hwas]
        unfold Unmet
        rw [exists_mem_cons_iff]
        exact or_iff_right hfail
      rw [hsame]
      rcases ih hrest (checkRule top t p r) with ⟨hbad, htook⟩ | ⟨hgood, hidle⟩
      · refine Or.inl ⟨hbad, ?_, ?_⟩
        · rw [htook.deconfigured, hfirst.deconfigured]
        · intro x
          rw [htook.live_iff, hfirst.hwas]
      · refine Or.inr ⟨hgood, ?_, ?_⟩
        · rw [hidle.deconfigured, hfirst.deconfigured]
        · rw [hidle.hwas, hfirst.hwas]

/-- Whatever a rule did, the lists have grown, and they hold what the rule
finds functional. -/
theorem checkRule_lists {y : T} (h : y ∈ p.allChildren ++ p.allParents ∨ (Applies top r t ∧ (y ∈
      getAffinityTargets top p.hwas t none (some r.childType) .functional r.getChildren ∨ y ∈
      getAffinityTargets top p.hwas t none (some r.parentType) .functional r.getParent))) :
    y ∈ (checkRule top t p r).allChildren ++ (checkRule top t p r).allParents := by
  have hgrown : ∀ children parents : List T,
      y ∈ p.allChildren ++ p.allParents ∨ (y ∈ children ∨ y ∈ parents) →
        y ∈ (p.allChildren ++ children) ++ (p.allParents ++ parents) := by
    intro children parents hy
    simp only [mem_append] at hy ⊢
    tauto
  have hlists := hgrown _ _ (h.imp id And.right)
  unfold checkRule
  by_cases hparent : r.parentType = top.targetType t ∧ r.checkParent = .checkParent
  · simp only [if_pos hparent]
    split <;> exact hlists
  · by_cases hchild : r.childType = top.targetType t
    · simp only [if_neg hparent, if_pos hchild]
      split <;> exact hlists
    · simp only [if_neg hparent, if_neg hchild]
      exact h.resolve_right fun happ => happ.1.elim hparent hchild

/-- Everything that is functional after the loop over the rules and that a
rule relates to `t` is in the lists. -/
theorem rules_lists (hperv : NoPerv rules) (p : Pass T) {y : T} (h : y ∈ p.allChildren ++
      p.allParents ∨ (Related top rules t y ∧ live top (rules.foldl (checkRule top t) p).hwas y)) :
    y ∈ (rules.foldl (checkRule top t) p).allChildren ++
      (rules.foldl (checkRule top t) p).allParents := by
  induction rules generalizing p with
  | nil =>
    rcases h with hmem | ⟨⟨r, hr, _⟩, _⟩
    · exact hmem
    · exact absurd hr not_mem_nil
  | cons r rules ih =>
    have hrest : NoPerv rules := fun r' hr' => hperv r' (mem_cons_of_mem r hr')
    rw [foldl_cons] at h ⊢
    apply ih hrest
    rcases h with hmem | ⟨⟨r', hr', happ, hrel⟩, hl⟩
    · exact Or.inl (checkRule_lists (Or.inl hmem))
    · rcases mem_cons.mp hr' with heq | hmem
      · have hlive : live top p.hwas y := by
          have hwhole := rules_loop top t hperv p
          rw [foldl_cons] at hwhole
          rcases hwhole with ⟨_, htook⟩ | ⟨_, hidle⟩
          · exact ((htook.live_iff y).mp hl).1
          · rw [hidle.hwas] at hl
            exact hl
        subst heq
        refine Or.inl (checkRule_lists (Or.inr ⟨happ, ?_⟩))
        rcases hrel with ⟨hy, hty⟩ | ⟨hy, hty⟩
        · exact Or.inl (mem_getAffinityTargets.2 ⟨hy, hty, hlive.1⟩)
        · exact Or.inr (mem_getAffinityTargets.2 ⟨hy, hty, hlive.1⟩)
      · exact Or.inr ⟨⟨r', hmem, happ, hrel⟩, hl⟩

/-! ## One round -/

/-- The round drops the head of the list and changes nothing else. -/
def Skips (t : T) (targets : List T) (s s' : State T) : Prop :=
  s.targets = t :: targets ∧ s' = { s with targets }

/-- The round deconfigures the head of the list. -/
structure Fires (top : Targets T) (rules : List PresentRule) (t : T) (targets : List T)
    (s s' : State T) : Prop where
  head : s.targets = t :: targets
  fresh : s.deconfigured t = false
  unmet : Unmet top rules (live top s.hwas) t
  deconfigured : s'.deconfigured = Function.update s.deconfigured t true
  live_iff : ∀ x, live top s'.hwas x ↔ live top s.hwas x ∧ ¬ Taken top t x
  pushed : ∃ new, s'.targets = new ++ targets ∧
    ∀ x, live top s'.hwas x → Related top rules t x → x ∈ new

variable {s : State T}

theorem step_cases (top : Targets T) (hperv : NoPerv rules) {targets : List T}
    (hs : s.targets = t :: targets) :
    ((s.deconfigured t = true ∨ ¬ Unmet top rules (live top s.hwas) t) ∧
      Skips t targets s (step top rules s)) ∨
    Fires top rules t targets s (step top rules s) := by
  unfold step
  rw [hs]
  by_cases hold : s.deconfigured t = true
  · simp only [if_pos hold]
    exact Or.inl ⟨Or.inl hold, hs, rfl⟩
  · have hfresh : s.deconfigured t = false := by simpa using hold
    simp only [if_neg hold]
    rcases rules_loop top t hperv ⟨s.hwas, s.deconfigured, [], []⟩ with
      ⟨hbad, htook⟩ | ⟨hgood, hidle⟩
    · refine Or.inr ?_
      have hnow : (rules.foldl (checkRule top t) ⟨s.hwas, s.deconfigured, [], []⟩).deconfigured t
          = true := by
        rw [htook.deconfigured]
        exact Function.update_self ..
      rw [if_pos hnow]
      refine ⟨hs, hfresh, hbad, htook.deconfigured, htook.live_iff, _, rfl, fun x hx hrel => ?_⟩
      have hmem := rules_lists hperv ⟨s.hwas, s.deconfigured, [], []⟩ (Or.inr ⟨hrel, hx⟩)
      rw [mem_reverse, mem_append]
      exact (mem_append.mp hmem).symm
    · refine Or.inl ⟨Or.inr hgood, hs, ?_⟩
      have hnow : ¬ (rules.foldl (checkRule top t) ⟨s.hwas, s.deconfigured, [], []⟩).deconfigured t
          = true := by
        rw [hidle.deconfigured]
        exact hold
      rw [if_neg hnow, hidle.deconfigured, hidle.hwas]

/-- The state as a work list. -/
def State.work (top : Targets T) (s : State T) : Lib.Worklist.Work T where
  queue := s.targets
  live := live top s.hwas
  spent := fun t => s.deconfigured t = true

theorem step_work (hperv : NoPerv rules) {targets : List T} (hs : s.targets = t :: targets) :
    Lib.Worklist.Step (Unmet top rules) (Related top rules) (s.work top)
      ((step top rules s).work top) := by
  rcases step_cases top hperv hs with ⟨hidle, -, hnext⟩ | hfires
  · rw [hnext]
    unfold State.work
    rw [hs]
    exact .skip hidle
  · obtain ⟨new, htargets, hpushed⟩ := hfires.pushed
    unfold State.work
    rw [hs, htargets]
    refine .fire ?_ hfires.unmet ?_ ?_ ?_ hpushed
    · rw [hfires.fresh]
      exact Bool.false_ne_true
    · exact fun x hx => ((hfires.live_iff x).mp hx).1
    · exact fun ht => ((hfires.live_iff t).mp ht).2 (Or.inl rfl)
    · intro x
      rw [hfires.deconfigured]
      by_cases hx : x = t
      · simp [hx]
      · simp [hx]

/-! ## The whole loop -/

/-- The targets that the loop may still deconfigure. -/
def State.remaining [Fintype T] (s : State T) : Nat :=
  (Finset.univ.filter fun t => s.deconfigured t = false).card

/-- A round deconfigures a target that it had not, or shortens the list. -/
theorem step_decreases [Fintype T] (hperv : NoPerv rules) (hs : s.targets ≠ []) :
    Prod.Lex (· < ·) (· < ·) ((step top rules s).remaining, (step top rules s).targets.length)
      (s.remaining, s.targets.length) := by
  obtain ⟨t, targets, hcons⟩ := exists_cons_of_ne_nil hs
  rcases step_cases top hperv hcons with ⟨-, -, hnext⟩ | hfires
  · rw [hnext]
    refine Prod.Lex.right _ ?_
    show targets.length < s.targets.length
    rw [hcons, length_cons]
    omega
  · refine Prod.Lex.left _ _ (Finset.card_lt_card ?_)
    rw [hfires.deconfigured]
    refine Finset.ssubset_iff_subset_ne.mpr ⟨fun x hx => ?_, fun heq => ?_⟩
    · have hx' := (Finset.mem_filter.mp hx).2
      rw [Finset.mem_filter]
      refine ⟨Finset.mem_univ x, ?_⟩
      by_cases hxt : x = t
      · rw [hxt]
        exact hfires.fresh
      · rw [Function.update_of_ne hxt] at hx'
        exact hx'
    · have hmem : t ∈ Finset.univ.filter fun x => s.deconfigured x = false :=
        Finset.mem_filter.mpr ⟨Finset.mem_univ t, hfires.fresh⟩
      rw [← heq, Finset.mem_filter, Function.update_self] at hmem
      exact absurd hmem.2 (by decide)

/-- The loop, until the list is empty. -/
def workLoop [Fintype T] (top : Targets T) (pmicsInBlueprint : Bool) (s : State T) : State T :=
  if _ : s.targets = [] then s
  else workLoop top pmicsInBlueprint (step top (presentRules pmicsInBlueprint) s)
termination_by (s.remaining, s.targets.length)
decreasing_by exact step_decreases (noPerv_presentRules pmicsInBlueprint) ‹_›

def presentByAssoc [Fintype T] (top : Targets T) (pmicsInBlueprint : Bool)
    (hwas : T → HwasState) (targets : List T) : T → HwasState :=
  (workLoop top pmicsInBlueprint ⟨targets, hwas, fun _ => false⟩).hwas

/-- The state before round `k`. -/
def rounds (top : Targets T) (pmicsInBlueprint : Bool) (s : State T) (k : Nat) : State T :=
  (step top (presentRules pmicsInBlueprint))^[k] s

theorem workLoop_eq_rounds [Fintype T] (top : Targets T) (pmics : Bool) (s : State T) :
    ∃ k, workLoop top pmics s = rounds top pmics s k ∧ (rounds top pmics s k).targets = [] := by
  induction s using workLoop.induct top pmics with
  | case1 s hs =>
    refine ⟨0, ?_, hs⟩
    unfold workLoop
    rw [dif_pos hs]
    rfl
  | case2 s hs ih =>
    obtain ⟨k, hk, hempty⟩ := ih
    refine ⟨k + 1, ?_, hempty⟩
    unfold workLoop
    rw [dif_neg hs]
    exact hk

theorem workLoop_rounds [Fintype T] (top : Targets T) (pmics : Bool) (s : State T) (k : Nat) :
    workLoop top pmics (rounds top pmics s k) = workLoop top pmics s := by
  induction k generalizing s with
  | zero => rfl
  | succ k ih =>
    show workLoop top pmics (rounds top pmics (step top (presentRules pmics) s) k) = _
    rw [ih]
    by_cases hs : s.targets = []
    · have hsame : step top (presentRules pmics) s = s := by
        unfold step
        rw [hs]
      rw [hsame]
    · conv_rhs => unfold workLoop
      rw [dif_neg hs]

theorem workLoop_eq [Fintype T] {pmics : Bool} {k : Nat}
    (hempty : (rounds top pmics s k).targets = []) :
    workLoop top pmics s = rounds top pmics s k := by
  rw [← workLoop_rounds top pmics s k]
  unfold workLoop
  rw [dif_pos hempty]

end Hostboot.Hwas.Present
