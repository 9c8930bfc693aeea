import Hostboot.Hwas.PresentByAssoc

/-!
# What `presentByAssoc` leaves functional

The comment of `presentByAssoc` promises that each child has a functional
parent of each type, and each parent a functional child of each type.  The
relatives of a deconfigured target are pushed to be looked at again, but the
children that go with it are not, and neither are *their* relatives, which may
hang on nothing else.  `Sheltered` says that a round strands no target in this
way.  When every round is sheltered, the promise is kept.

On a system whose targets are nested as the memory targets of the hardware
are, one situation alone is not sheltered: an MCC that is deconfigured for want
of an MI takes its OMIs along, and the OMIC of such an OMI is not looked at
again.  So there it is enough that no MCC with an OMI lacks its MI at the
start.
-/

namespace Hostboot.Hwas.Present

variable {T : Type*}

/-! ## The promise -/

/-- Every functional target has the functional relatives that the rules
demand: a parent for the child type of a rule, and a child for the parent type
of a rule that checks the parent. -/
def Closed (top : Targets T) (rules : List PresentRule) (hwas : T → HwasState) : Prop :=
  ∀ x, (hwas x).functional = true → ∀ r ∈ rules,
    (top.targetType x = r.childType → ∃ y ∈ top.associated r.getParent x,
      top.targetType y = r.parentType ∧ (hwas y).functional = true) ∧
    (r.checkParent = .checkParent → top.targetType x = r.parentType →
      ∃ y ∈ top.associated r.getChildren x,
        top.targetType y = r.childType ∧ (hwas y).functional = true)

/-- The types that some rule speaks of. -/
def RuleType (rules : List PresentRule) (ty : TargetType) : Prop :=
  ∃ r ∈ rules, r.parentType = ty ∨ r.childType = ty

/-- When the round deconfigures its target, each functional target that loses
its last relative in a rule by it is looked at again: it is on the list, or a
rule relates it to the target of the round, or to a listed target that is
about to be deconfigured as well. -/
def Sheltered (top : Targets T) (rules : List PresentRule) (s : State T) : Prop :=
  ∀ t targets, s.targets = t :: targets → s.deconfigured t = false →
    Unmet top rules (live top s.hwas) t →
    ∀ x, live top s.hwas x → ¬ Taken top t x → ¬ Unmet top rules (live top s.hwas) x →
      Unmet top rules (fun y => live top s.hwas y ∧ ¬ Taken top t y) x →
      x ∈ targets ∨ Related top rules t x ∨
        ∃ y ∈ targets, y ≠ t ∧ s.deconfigured y = false ∧
          Unmet top rules (live top s.hwas) y ∧ Related top rules y x

theorem types_ne (pmics : Bool) : ∀ r ∈ presentRules pmics, r.parentType ≠ r.childType := by
  cases pmics <;> decide

variable {top : Targets T} {pmics : Bool} {hwas : T → HwasState} {rules : List PresentRule}
  {x t : T} {s : State T} {targets : List T}

theorem closed_of_met
    (h : ∀ x, live top hwas x → ¬ Unmet top (presentRules pmics) (live top hwas) x) :
    Closed top (presentRules pmics) hwas := by
  intro x hx r hr
  have hperv := noPerv_presentRules pmics r hr
  have hne := types_ne pmics r hr
  constructor
  · intro hchild
    have hlive : live top hwas x := ⟨hx, by rw [hchild]; exact hperv.2⟩
    by_contra hnone
    refine h x hlive ⟨r, hr, ?_⟩
    unfold Fails
    rw [if_neg fun hp => hne (hp.1.trans hchild)]
    exact ⟨hchild.symm, fun y hy hty hl => hnone ⟨y, hy, hty, hl.1⟩⟩
  · intro hcheck hparent
    have hlive : live top hwas x := ⟨hx, by rw [hparent]; exact hperv.1⟩
    by_contra hnone
    refine h x hlive ⟨r, hr, ?_⟩
    unfold Fails
    rw [if_pos ⟨hparent.symm, hcheck⟩]
    exact fun y hy hty hl => hnone ⟨y, hy, hty, hl.1⟩

theorem Unmet.ruleType {live : T → Prop} (h : Unmet top rules live x) :
    RuleType rules (top.targetType x) := by
  obtain ⟨r, hr, hfail⟩ := h
  exact ⟨r, hr, hfail.applies.imp And.left id⟩

variable [DecidableEq T]

/-! ## Every run -/

/-- A target that the round breaks is watched after it, if it is looked at
again.  `near` says which listed targets will push it. -/
theorem watched_of_looked_at {near : T → T → Prop} {s' : State T}
    (hfires : Fires top rules t targets s s') (hx : live top s'.hwas x) (hlook : x ∈ targets ∨
      Related top rules t x ∨ ∃ y ∈ targets, y ≠ t ∧ s.deconfigured y = false ∧ Unmet top rules
    (live top s.hwas) y ∧ near y x) :
    Lib.Worklist.Watched (Unmet top rules) near (s'.work top) x := by
  obtain ⟨new, htargets, hpushed⟩ := hfires.pushed
  have hless : ∀ y, live top s'.hwas y → live top s.hwas y := fun y hy =>
    ((hfires.live_iff y).mp hy).1
  have hrest : ∀ y ∈ targets, y ∈ s'.targets := by
    intro y hy
    rw [htargets]
    exact List.mem_append_right _ hy
  rcases hlook with hmem | hrel | ⟨y, hmem, hne, hfresh, hunmet, hnear⟩
  · exact Or.inl (hrest x hmem)
  · refine Or.inl ?_
    show x ∈ s'.targets
    rw [htargets]
    exact List.mem_append_left _ (hpushed x hx hrel)
  · refine Or.inr ⟨y, hrest y hmem, ?_, hunmet.mono hless, hnear⟩
    show ¬ s'.deconfigured y = true
    rw [hfires.deconfigured, Function.update_of_ne hne, hfresh]
    exact Bool.false_ne_true

/-- A round keeps the list settled, if what it breaks is looked at again. -/
theorem settled_step (hperv : NoPerv rules) {near : T → T → Prop}
    (hnear : ∀ y x, near y x → Related top rules y x) (hlook : ∀ t targets, s.targets = t :: targets
      → s.deconfigured t = false → Unmet top rules (live top s.hwas) t → ∀ x, live top s.hwas x → ¬
      Taken top t x → ¬ Unmet top rules (live top s.hwas) x → Unmet top rules (fun y => live top
      s.hwas y ∧ ¬ Taken top t y) x → x ∈ targets ∨ Related top rules t x ∨ ∃ y ∈ targets, y ≠ t ∧
      s.deconfigured y = false ∧ Unmet top rules (live top s.hwas) y ∧ near y x)
    (hs : Lib.Worklist.Settled (Unmet top rules) near (s.work top)) :
    Lib.Worklist.Settled (Unmet top rules) near ((step top rules s).work top) := by
  cases hcons : s.targets with
  | nil =>
    have hsame : step top rules s = s := by
      unfold step
      rw [hcons]
    rw [hsame]
    exact hs
  | cons t targets =>
    have hstep := (step_work hperv hcons).mono_near fun y x => hnear y x
    refine hs.step ?_ hstep fun x hx hmet hbad => ?_
    · exact fun hless h => h.mono hless
    · rcases step_cases top hperv hcons with ⟨-, -, hnext⟩ | hfires
      · rw [hnext] at hbad
        exact absurd hbad hmet
      · have hwas := (hfires.live_iff x).mp hx
        have hlost : Unmet top rules (fun y => live top s.hwas y ∧ ¬ Taken top t y) x :=
          hbad.mono fun y hy => (hfires.live_iff y).mpr hy
        exact watched_of_looked_at hfires hx
          (hlook t targets hcons hfires.fresh hfires.unmet x hwas.1 hwas.2 hmet hlost)

omit [DecidableEq T] in
/-- The list at the start, with every functional target of a rule type on
it. -/
theorem settled_start {near : T → T → Prop}
    (hall : ∀ x, (hwas x).functional = true → RuleType rules (top.targetType x) → x ∈ targets) :
    Lib.Worklist.Settled (Unmet top rules) near
      ((⟨targets, hwas, fun _ => false⟩ : State T).work top) := by
  refine .start (fun x => Bool.false_ne_true) fun x hx hbad => ?_
  exact hall x hx.1 hbad.ruleType

theorem closed_of_sheltered [Fintype T] (hall : ∀ x, (hwas x).functional = true → RuleType
    (presentRules pmics) (top.targetType x) → x ∈ targets) (hshel : ∀ k, Sheltered top (presentRules
      pmics) (rounds top pmics ⟨targets, hwas, fun _ => false⟩ k)) :
    Closed top (presentRules pmics) (presentByAssoc top pmics hwas targets) := by
  have hperv := noPerv_presentRules pmics
  have hsettled : ∀ k, Lib.Worklist.Settled (Unmet top (presentRules pmics))
      (Related top (presentRules pmics))
      ((rounds top pmics ⟨targets, hwas, fun _ => false⟩ k).work top) := by
    intro k
    induction k with
    | zero => exact settled_start hall
    | succ k ih =>
      have hnext := settled_step hperv (fun _ _ h => h) (hshel k) ih
      unfold rounds at hnext ⊢
      rw [Function.iterate_succ_apply']
      exact hnext
  obtain ⟨k, hk, hempty⟩ := workLoop_eq_rounds top pmics ⟨targets, hwas, fun _ => false⟩
  unfold presentByAssoc
  rw [hk]
  exact closed_of_met fun x hx => (hsettled k).done hempty x hx

/-- The loop of `presentByAssoc` ends with an empty list, whatever the targets
and the list; and when no round strands a target, every functional target has
the relatives that the rules demand. -/
theorem presentByAssoc_closed [Fintype T] (top : Targets T) (pmics : Bool)
    (hwas : T → HwasState) (targets : List T)
    (hall : ∀ x, (hwas x).functional = true →
      RuleType (presentRules pmics) (top.targetType x) → x ∈ targets) :
    (∃ k, (rounds top pmics ⟨targets, hwas, fun _ => false⟩ k).targets = [] ∧
      presentByAssoc top pmics hwas targets =
        (rounds top pmics ⟨targets, hwas, fun _ => false⟩ k).hwas) ∧
    ((∀ k, Sheltered top (presentRules pmics)
        (rounds top pmics ⟨targets, hwas, fun _ => false⟩ k)) →
      Closed top (presentRules pmics) (presentByAssoc top pmics hwas targets)) := by
  constructor
  · obtain ⟨k, hk, hempty⟩ := workLoop_eq_rounds top pmics ⟨targets, hwas, fun _ => false⟩
    refine ⟨k, hempty, ?_⟩
    unfold presentByAssoc
    rw [hk]
  · exact closed_of_sheltered hall

/-! ## Nested systems -/

omit [DecidableEq T]

/-- The types that stand above a type by affinity on the hardware, those apart
that no rule speaks of. -/
def affinityAbove : TargetType → List TargetType
  | .mi | .omic => [.mc]
  | .mcc => [.mc, .mi]
  | .omi => [.mc, .mi, .mcc]
  | .ocmbChip => [.mc, .mi, .mcc, .omi]
  | .memPort | .pmic | .genericI2cDevice | .tempSensor | .powerIc =>
    [.mc, .mi, .mcc, .omi, .ocmbChip]
  | .dimm => [.mc, .mi, .mcc, .omi, .ocmbChip, .memPort]
  | .mc | .pauc | .perv | .other => []

/-- The memory types. -/
def TargetType.isMemory : TargetType → Bool
  | .perv | .other => false
  | _ => true

/-- The targets are nested as on the hardware: affinity paths make a forest,
with the types in the order of `affinityAbove`, the child chiplets of a memory
target are below it by affinity as well, and an OMI and its OMIC are below the
same MC. -/
structure Nested (top : Targets T) : Prop where
  affinity_symm : ∀ x y, y ∈ top.associated .childByAffinity x ↔
    x ∈ top.associated .parentByAffinity y
  omi_symm : ∀ x y, y ∈ top.associated .omiChild x ↔ x ∈ top.associated .omicParent y
  trans : ∀ x y z, y ∈ top.associated .childByAffinity x →
    z ∈ top.associated .childByAffinity y → z ∈ top.associated .childByAffinity x
  chain : ∀ x y z, z ∈ top.associated .childByAffinity x →
    z ∈ top.associated .childByAffinity y →
    x = y ∨ y ∈ top.associated .childByAffinity x ∨ x ∈ top.associated .childByAffinity y
  above : ∀ x y, y ∈ top.associated .childByAffinity x → (top.targetType x).isMemory = true →
    (top.targetType y).isMemory = true → top.targetType x ∈ affinityAbove (top.targetType y)
  chiplets : ∀ x y, y ∈ top.associated .child x → top.targetClass y = .unit →
    (top.targetType x).isMemory = true → (top.targetType y).isMemory = true →
    y ∈ top.associated .childByAffinity x
  same_mc : ∀ x o, x ∈ top.associated .omicParent o → top.targetType x = .omic →
    top.targetType o = .omi → ∀ m, top.targetType m = .mc →
    (x ∈ top.associated .childByAffinity m ↔ o ∈ top.associated .childByAffinity m)

/-- Every MCC that has an OMI has an MI. -/
def MccsHaveMi (top : Targets T) (live : T → Prop) : Prop :=
  ∀ c, live c → top.targetType c = .mcc →
    (∃ o ∈ top.associated .childByAffinity c, top.targetType o = .omi ∧ live o) →
    ∃ i ∈ top.associated .parentByAffinity c, top.targetType i = .mi ∧ live i

/-- The three kinds of rules.  Between the two types of a rule by affinity
there is no third. -/
theorem rule_kind (pmics : Bool) : ∀ r ∈ presentRules pmics,
    (r.getParent = .parentByAffinity ∧ r.getChildren = .childByAffinity ∧
      ∀ ty ∈ affinityAbove r.childType, r.parentType ∉ affinityAbove ty) ∨
    (r.parentType = .omic ∧ r.childType = .omi ∧ r.getParent = .omicParent ∧
      r.getChildren = .omiChild ∧ r.checkParent = .checkParent) ∨
    (r.parentType = .pauc ∧ r.childType = .omic ∧ r.getParent = .paucParent ∧
      r.checkParent = .noCheckParent) := by
  cases pmics <;> decide

theorem ruleType_isMemory {ty : TargetType} (h : RuleType (presentRules pmics) ty) :
    ty.isMemory = true := by
  have hall : ∀ r ∈ presentRules pmics,
      r.parentType.isMemory = true ∧ r.childType.isMemory = true := by
    cases pmics <;> decide
  obtain ⟨r, hr, hparent | hchild⟩ := h
  · rw [← hparent]
    exact (hall r hr).1
  · rw [← hchild]
    exact (hall r hr).2

theorem Unmet.side {live : T → Prop} (h : Unmet top rules live x) :
    (∃ r ∈ rules, r.parentType = top.targetType x ∧ r.checkParent = .checkParent ∧
      ∀ y ∈ top.associated r.getChildren x, top.targetType y = r.childType → ¬ live y) ∨
    (∃ r ∈ rules, r.childType = top.targetType x ∧
      ∀ y ∈ top.associated r.getParent x, top.targetType y = r.parentType → ¬ live y) := by
  obtain ⟨r, hr, hfail⟩ := h
  unfold Fails at hfail
  by_cases hparent : r.parentType = top.targetType x ∧ r.checkParent = .checkParent
  · rw [if_pos hparent] at hfail
    exact Or.inl ⟨r, hr, hparent.1, hparent.2, hfail⟩
  · rw [if_neg hparent] at hfail
    exact Or.inr ⟨r, hr, hfail⟩

theorem parent_of_met {live : T → Prop} (h : ¬ Unmet top (presentRules pmics) live x)
    {r : PresentRule} (hr : r ∈ presentRules pmics) (hchild : r.childType = top.targetType x) :
    ∃ y ∈ top.associated r.getParent x, top.targetType y = r.parentType ∧ live y := by
  by_contra hnone
  refine h ⟨r, hr, ?_⟩
  unfold Fails
  rw [if_neg fun hp => types_ne pmics r hr (hp.1.trans hchild.symm)]
  exact ⟨hchild, fun y hy hty hl => hnone ⟨y, hy, hty, hl⟩⟩

theorem lost_relative {live gone : T → Prop} (hmet : ¬ Unmet top rules live x)
    (hlost : Unmet top rules (fun y => live y ∧ ¬ gone y) x) :
    ∃ r ∈ rules,
      (r.parentType = top.targetType x ∧ r.checkParent = .checkParent ∧
        ∃ y ∈ top.associated r.getChildren x,
          top.targetType y = r.childType ∧ live y ∧ gone y) ∨
      (r.childType = top.targetType x ∧
        ∃ y ∈ top.associated r.getParent x,
          top.targetType y = r.parentType ∧ live y ∧ gone y) := by
  obtain ⟨r, hr, hfail⟩ := hlost
  have hok : ¬ Fails top r live x := fun h => hmet ⟨r, hr, h⟩
  refine ⟨r, hr, ?_⟩
  unfold Fails at hfail hok
  by_cases hparent : r.parentType = top.targetType x ∧ r.checkParent = .checkParent
  · rw [if_pos hparent] at hfail hok
    push Not at hok
    obtain ⟨y, hy, hty, hl⟩ := hok
    refine Or.inl ⟨hparent.1, hparent.2, y, hy, hty, hl, ?_⟩
    by_contra hkept
    exact hfail y hy hty ⟨hl, hkept⟩
  · rw [if_neg hparent] at hfail hok
    push Not at hok
    obtain ⟨y, hy, hty, hl⟩ := hok hfail.1
    refine Or.inr ⟨hfail.1, y, hy, hty, hl, ?_⟩
    by_contra hkept
    exact hfail.2 y hy hty ⟨hl, hkept⟩

theorem Nested.taken (h : Nested top) {y : T} (ht : (top.targetType t).isMemory = true)
    (hy : (top.targetType y).isMemory = true) (htaken : Taken top t y) :
    y = t ∨ y ∈ top.associated .childByAffinity t := by
  rcases htaken with heq | ⟨hchild, hunit⟩ | hchild
  · exact Or.inl heq
  · exact Or.inr (h.chiplets t y hchild hunit ht hy)
  · exact Or.inr hchild

/-- Of two memory targets above a third, the one of the type that stands
higher is above the other. -/
theorem Nested.between (h : Nested top) {y z : T} (hx : (top.targetType x).isMemory = true)
    (hy : (top.targetType y).isMemory = true) (hxz : z ∈ top.associated .childByAffinity x)
    (hyz : z ∈ top.associated .childByAffinity y) (hne : top.targetType x ≠ top.targetType y)
    (hno : top.targetType y ∉ affinityAbove (top.targetType x)) :
    y ∈ top.associated .childByAffinity x := by
  rcases h.chain x y z hxz hyz with heq | hbelow | habove
  · exact absurd (congrArg top.targetType heq) hne
  · exact hbelow
  · exact absurd (h.above y x habove hy hx) hno

/-- A target that fails a rule has none functional on one side of it, where its
rules name one type above it and one below. -/
theorem Unmet.beside {live : T → Prop} {parent child : TargetType} (h : Unmet top rules live t)
    (hparents : ∀ r ∈ rules, r.childType = top.targetType t → r.parentType = parent ∧ r.getParent =
      .parentByAffinity) (hchildren : ∀ r ∈ rules, r.parentType = top.targetType t → r.childType =
      child ∧ r.getChildren = .childByAffinity) :
    (∀ y ∈ top.associated .parentByAffinity t, top.targetType y = parent → ¬ live y) ∨
      (∀ y ∈ top.associated .childByAffinity t, top.targetType y = child → ¬ live y) := by
  rcases h.side with ⟨r, hr, hty, -, hnone⟩ | ⟨r, hr, hty, hnone⟩
  · obtain ⟨hother, hget⟩ := hchildren r hr hty
    rw [hother, hget] at hnone
    exact Or.inr hnone
  · obtain ⟨hother, hget⟩ := hparents r hr hty
    rw [hother, hget] at hnone
    exact Or.inl hnone

theorem mi_unmet {live : T → Prop} (h : Unmet top (presentRules pmics) live t)
    (ht : top.targetType t = .mi) :
    (∀ y ∈ top.associated .parentByAffinity t, top.targetType y = .mc → ¬ live y) ∨
      (∀ y ∈ top.associated .childByAffinity t, top.targetType y = .mcc → ¬ live y) := by
  apply h.beside
  · rw [ht]
    cases pmics <;> decide
  · rw [ht]
    cases pmics <;> decide

theorem mcc_unmet {live : T → Prop} (h : Unmet top (presentRules pmics) live t)
    (ht : top.targetType t = .mcc) :
    (∀ y ∈ top.associated .parentByAffinity t, top.targetType y = .mi → ¬ live y) ∨
      (∀ y ∈ top.associated .childByAffinity t, top.targetType y = .omi → ¬ live y) := by
  apply h.beside
  · rw [ht]
    cases pmics <;> decide
  · rw [ht]
    cases pmics <;> decide

theorem pauc_met {live : T → Prop} (ht : top.targetType t = .pauc) :
    ¬ Unmet top (presentRules pmics) live t := by
  have hnone : ∀ r ∈ presentRules pmics,
      ¬ (r.parentType = .pauc ∧ r.checkParent = .checkParent) ∧ r.childType ≠ .pauc := by
    cases pmics <;> decide
  intro h
  rcases h.side with ⟨r, hr, hty, hcheck, -⟩ | ⟨r, hr, hty, -⟩
  · exact (hnone r hr).1 ⟨hty.trans ht, hcheck⟩
  · exact (hnone r hr).2 (hty.trans ht)

theorem mcc_of_met {live : T → Prop} {o : T} (h : ¬ Unmet top (presentRules pmics) live o)
    (ho : top.targetType o = .omi) :
    ∃ c ∈ top.associated .parentByAffinity o, top.targetType c = .mcc ∧ live c := by
  have hrule : ∃ r ∈ presentRules pmics,
      r.childType = .omi ∧ r.parentType = .mcc ∧ r.getParent = .parentByAffinity := by
    cases pmics <;> decide
  obtain ⟨r, hr, hchild, hparent, hget⟩ := hrule
  have hfound := parent_of_met h hr (hchild.trans ho.symm)
  rw [hparent, hget] at hfound
  exact hfound

theorem mc_of_met {live : T → Prop} (h : ¬ Unmet top (presentRules pmics) live x)
    (hx : top.targetType x = .omic) :
    ∃ m ∈ top.associated .parentByAffinity x, top.targetType m = .mc ∧ live m := by
  have hrule : ∃ r ∈ presentRules pmics,
      r.childType = .omic ∧ r.parentType = .mc ∧ r.getParent = .parentByAffinity := by
    cases pmics <;> decide
  obtain ⟨r, hr, hchild, hparent, hget⟩ := hrule
  have hfound := parent_of_met h hr (hchild.trans hx.symm)
  rw [hparent, hget] at hfound
  exact hfound

/-- A functional OMI that goes with another target, but not its OMIC, is about
to be deconfigured itself. -/
theorem Nested.omi_unmet (h : Nested top) {live : T → Prop} (hmi : MccsHaveMi top live) {o : T}
    (hunmet : Unmet top (presentRules pmics) live t) (hx : top.targetType x = .omic)
    (ho : top.targetType o = .omi) (hxo : x ∈ top.associated .omicParent o) (hlive : live o)
    (hmet : ¬ Unmet top (presentRules pmics) live x)
    (htaken : o ∈ top.associated .childByAffinity t) (hkept : x ∉ top.associated .childByAffinity t)
    :
    Unmet top (presentRules pmics) live o := by
  have htmem := ruleType_isMemory hunmet.ruleType
  have homem : (top.targetType o).isMemory = true := by
    rw [ho]
    rfl
  have habove := h.above t o htaken htmem homem
  rw [ho] at habove
  -- the MCC of an OMI that meets the rules
  have hmcc : ¬ Unmet top (presentRules pmics) live o → ∃ c,
      o ∈ top.associated .childByAffinity c ∧ top.targetType c = .mcc ∧ live c := by
    intro hok
    obtain ⟨c, hc, hty, hl⟩ := mcc_of_met hok ho
    exact ⟨c, (h.affinity_symm c o).mpr hc, hty, hl⟩
  rcases List.mem_cons.mp habove with hmc | habove
  · exact absurd ((h.same_mc x o hxo hx ho t hmc).mpr htaken) hkept
  rcases List.mem_cons.mp habove with hty | habove
  · -- an MI: its MC is gone, and then the OMIC's, or its MCCs are
    rcases mi_unmet hunmet hty with hnone | hnone
    · obtain ⟨m, hm, hmty, hml⟩ := mc_of_met hmet hx
      have hmo := (h.same_mc x o hxo hx ho m hmty).mp ((h.affinity_symm m x).mpr hm)
      have hmt : t ∈ top.associated .childByAffinity m :=
        h.between (by rw [hmty]; rfl) htmem hmo htaken (by rw [hmty, hty]; decide)
          (by rw [hmty, hty]; decide)
      exact absurd hml (hnone m ((h.affinity_symm m t).mp hmt) hmty)
    · by_contra hok
      obtain ⟨c, hc, hcty, hcl⟩ := hmcc hok
      have htc : c ∈ top.associated .childByAffinity t :=
        h.between htmem (by rw [hcty]; rfl) htaken hc (by rw [hcty, hty]; decide)
          (by rw [hcty, hty]; decide)
      exact hnone c htc hcty hcl
  · -- an MCC: it has an MI if it is functional, and the OMI has no other MCC
    have hty : top.targetType t = .mcc := by simpa using habove
    rcases mcc_unmet hunmet hty with hnone | hnone
    · by_contra hok
      obtain ⟨c, hc, hcty, hcl⟩ := hmcc hok
      have hsame : c = t := by
        rcases h.chain c t o hc htaken with heq | hbelow | hbelow
        · exact heq
        · have hbad := h.above c t hbelow (by rw [hcty]; rfl) htmem
          rw [hcty, hty] at hbad
          exact absurd hbad (by decide)
        · have hbad := h.above t c hbelow htmem (by rw [hcty]; rfl)
          rw [hcty, hty] at hbad
          exact absurd hbad (by decide)
      rw [hsame] at hcl
      obtain ⟨i, hi, hity, hil⟩ := hmi t hcl hty ⟨o, htaken, ho, hlive⟩
      exact hnone i hi hity hil
    · exact absurd hlive (hnone o htaken ho)

/-- `y` will push `x`, an OMIC. -/
def RelatedOmic (top : Targets T) (rules : List PresentRule) (y x : T) : Prop :=
  Related top rules y x ∧ top.targetType x = .omic

/-- On a nested system, a target that loses its last relative in a rule is
looked at again. -/
theorem Nested.looked_at (h : Nested top) (hs : s.targets = t :: targets)
    (hunmet : Unmet top (presentRules pmics) (live top s.hwas) t) (hsettled : Lib.Worklist.Settled
    (Unmet top (presentRules pmics)) (RelatedOmic top (presentRules pmics)) (s.work top))
    (hmi : MccsHaveMi top (live top s.hwas)) (hkept : ¬ Taken top t x)
    (hmet : ¬ Unmet top (presentRules pmics) (live top s.hwas) x)
    (hlost : Unmet top (presentRules pmics) (fun y => live top s.hwas y ∧ ¬ Taken top t y) x) :
    Related top (presentRules pmics) t x ∨
      ∃ y ∈ targets, y ≠ t ∧ s.deconfigured y = false ∧
        Unmet top (presentRules pmics) (live top s.hwas) y ∧
        RelatedOmic top (presentRules pmics) y x := by
  have htmem := ruleType_isMemory hunmet.ruleType
  have hxmem := ruleType_isMemory hlost.ruleType
  have hxt : x ≠ t := fun heq => hkept (Or.inl heq)
  have hxkept : x ∉ top.associated .childByAffinity t := fun hx => hkept (Or.inr (Or.inr hx))
  have htypes : ∀ r ∈ presentRules pmics,
      r.parentType.isMemory = true ∧ r.childType.isMemory = true := fun r hr =>
    ⟨ruleType_isMemory ⟨r, hr, Or.inl rfl⟩, ruleType_isMemory ⟨r, hr, Or.inr rfl⟩⟩
  obtain ⟨r, hr, hside⟩ := lost_relative hmet hlost
  rcases hside with ⟨hparent, hcheck, y, hy, hyty, hylive, hytaken⟩ |
    ⟨hchild, y, hy, hyty, hylive, hytaken⟩
  · -- `x` is the parent and has lost its child `y`
    have hymem : (top.targetType y).isMemory = true := by
      rw [hyty]
      exact (htypes r hr).2
    rcases rule_kind pmics r hr with ⟨hgetp, hgetc, hno⟩ | ⟨hpty, hcty, hgetp, hgetc, -⟩ |
      ⟨-, -, -, hnocheck⟩
    · rw [hgetc] at hy
      rcases h.taken htmem hymem hytaken with heq | hbelow
      · subst heq
        refine Or.inl ⟨r, hr, Or.inr hyty.symm, Or.inr ⟨?_, hparent.symm⟩⟩
        rw [hgetp]
        exact (h.affinity_symm x y).mp hy
      · rcases h.chain x t y hy hbelow with heq | hmid | hup
        · exact absurd heq hxt
        · have h1 := h.above x t hmid hxmem htmem
          have h2 := h.above t y hbelow htmem hymem
          rw [hyty] at h2
          rw [← hparent] at h1
          exact absurd h1 (hno _ h2)
        · exact absurd hup hxkept
    · rw [hgetc] at hy
      have hxo := (h.omi_symm x y).mp hy
      have hxty : top.targetType x = .omic := hparent.symm.trans hpty
      have hrelated : RelatedOmic top (presentRules pmics) y x := by
        refine ⟨⟨r, hr, Or.inr hyty.symm, Or.inr ⟨?_, hparent.symm⟩⟩, hxty⟩
        rw [hgetp]
        exact hxo
      rcases h.taken htmem hymem hytaken with heq | hbelow
      · rw [heq] at hrelated
        exact Or.inl hrelated.1
      · have hyunmet := h.omi_unmet hmi hunmet hxty (hyty.trans hcty) hxo hylive hmet hbelow hxkept
        have hlisted : y ∈ s.targets := by
          rcases hsettled.watched y hylive hyunmet with hmem | ⟨z, -, -, -, -, hbad⟩
          · exact hmem
          · rw [hyty.trans hcty] at hbad
            exact absurd hbad (by decide)
        have hyt : y ≠ t := by
          intro heq
          rw [heq] at hbelow
          have hbad := h.above t t hbelow htmem htmem
          rw [← heq, hyty, hcty] at hbad
          exact absurd hbad (by decide)
        have hfresh : s.deconfigured y = false := by
          by_contra hold
          exact hsettled.spent_dead y (show s.deconfigured y = true by simpa using hold) hylive
        rw [hs] at hlisted
        exact Or.inr ⟨y, (List.mem_cons.mp hlisted).resolve_left hyt, hyt, hfresh, hyunmet,
          hrelated⟩
    · rw [hnocheck] at hcheck
      exact absurd hcheck (by decide)
  · -- `x` is the child and has lost its parent `y`
    have hymem : (top.targetType y).isMemory = true := by
      rw [hyty]
      exact (htypes r hr).1
    rcases rule_kind pmics r hr with ⟨hgetp, -, -⟩ | ⟨hpty, hcty, hgetp, hgetc, hcheck⟩ |
      ⟨hpty, -, -, -⟩
    · rw [hgetp] at hy
      have hxy := (h.affinity_symm y x).mpr hy
      rcases h.taken htmem hymem hytaken with heq | hbelow
      · exact absurd (heq ▸ hxy) hxkept
      · exact absurd (h.trans t y x hbelow hxy) hxkept
    · rw [hgetp] at hy
      rcases h.taken htmem hymem hytaken with heq | hbelow
      · refine Or.inl ⟨r, hr, Or.inl ⟨?_, hcheck⟩, Or.inl ⟨?_, hchild.symm⟩⟩
        · rw [← heq, hyty]
        · rw [hgetc, ← heq]
          exact (h.omi_symm y x).mpr hy
      · have habove := h.above t y hbelow htmem hymem
        rw [hyty, hpty] at habove
        have hmc : top.targetType t = .mc := by simpa [affinityAbove] using habove
        have hxo := (h.same_mc y x hy (hyty.trans hpty) (hchild.symm.trans hcty) t hmc).mp hbelow
        exact absurd hxo hxkept
    · rcases h.taken htmem hymem hytaken with heq | hbelow
      · exact absurd hunmet (pauc_met (by rw [← heq, hyty, hpty]))
      · have habove := h.above t y hbelow htmem hymem
        rw [hyty, hpty] at habove
        exact absurd habove List.not_mem_nil

section Rounds

variable [DecidableEq T]

variable {top : Targets T} {pmics : Bool} {s : State T}

/-- A round on a nested system takes the MI of an MCC only together with the
MCC. -/
theorem Nested.mccsHaveMi_step (h : Nested top) {s' : State T} {t : T} {targets : List T}
    (hfires : Fires top (presentRules pmics) t targets s s')
    (hmi : MccsHaveMi top (live top s.hwas)) : MccsHaveMi top (live top s'.hwas) := by
  intro c hc hcty homi
  obtain ⟨o, ho, hoty, hol⟩ := homi
  have htmem := ruleType_isMemory hfires.unmet.ruleType
  have hcwas := (hfires.live_iff c).mp hc
  have howas := (hfires.live_iff o).mp hol
  obtain ⟨i, hi, hity, hil⟩ := hmi c hcwas.1 hcty ⟨o, ho, hoty, howas.1⟩
  have hci := (h.affinity_symm i c).mpr hi
  refine ⟨i, hi, hity, (hfires.live_iff i).mpr ⟨hil, fun htaken => hcwas.2 ?_⟩⟩
  rcases h.taken htmem (by rw [hity]; rfl) htaken with heq | hbelow
  · exact Or.inr (Or.inr (heq ▸ hci))
  · exact Or.inr (Or.inr (h.trans t i c hbelow hci))

/-- What every round on a nested system keeps. -/
structure NestedOk (top : Targets T) (pmics : Bool) (s : State T) : Prop where
  settled : Lib.Worklist.Settled (Unmet top (presentRules pmics))
    (RelatedOmic top (presentRules pmics)) (s.work top)
  mccsHaveMi : MccsHaveMi top (live top s.hwas)

omit [DecidableEq T] in
theorem NestedOk.sheltered (h : Nested top) (hs : NestedOk top pmics s) :
    Sheltered top (presentRules pmics) s := by
  intro t targets hcons _ hunmet x _ hkept hmet hlost
  rcases h.looked_at hcons hunmet hs.settled hs.mccsHaveMi hkept hmet hlost with
    hrel | ⟨y, hmem, hne, hfresh, hyunmet, hrel⟩
  · exact Or.inr (Or.inl hrel)
  · exact Or.inr (Or.inr ⟨y, hmem, hne, hfresh, hyunmet, hrel.1⟩)

theorem NestedOk.step (h : Nested top) (hs : NestedOk top pmics s) :
    NestedOk top pmics (step top (presentRules pmics) s) where
  settled := by
    refine settled_step (noPerv_presentRules pmics) (fun _ _ hrel => hrel.1) ?_ hs.settled
    intro t targets hcons _ hunmet x _ hkept hmet hlost
    exact Or.inr (h.looked_at hcons hunmet hs.settled hs.mccsHaveMi hkept hmet hlost)
  mccsHaveMi := by
    cases hcons : s.targets with
    | nil =>
      have hsame : Present.step top (presentRules pmics) s = s := by
        unfold Present.step
        rw [hcons]
      rw [hsame]
      exact hs.mccsHaveMi
    | cons t targets =>
      rcases step_cases top (noPerv_presentRules pmics) hcons with ⟨-, -, hnext⟩ | hfires
      · rw [hnext]
        exact hs.mccsHaveMi
      · exact h.mccsHaveMi_step hfires hs.mccsHaveMi

/-- On a nested system where no MCC with an OMI lacks its MI at the start,
every round is sheltered. -/
theorem sheltered_of_nested (h : Nested top) {hwas : T → HwasState} {targets : List T} (hall : ∀ x,
    (hwas x).functional = true → RuleType (presentRules pmics) (top.targetType x) → x ∈ targets)
    (hmi : MccsHaveMi top (live top hwas)) (k : Nat) :
    Sheltered top (presentRules pmics)
      (rounds top pmics ⟨targets, hwas, fun _ => false⟩ k) := by
  have hok : NestedOk top pmics (rounds top pmics ⟨targets, hwas, fun _ => false⟩ k) := by
    induction k with
    | zero => exact ⟨settled_start hall, hmi⟩
    | succ k ih =>
      have hnext := ih.step h
      unfold rounds at hnext ⊢
      rw [Function.iterate_succ_apply']
      exact hnext
  exact hok.sheltered h

/-- On a nested system where no MCC with an OMI lacks its MI at the start,
`presentByAssoc` keeps its promise for every order of the list. -/
theorem presentByAssoc_nested [Fintype T] {top : Targets T} (h : Nested top) (pmics : Bool)
    (hwas : T → HwasState) (targets : List T)
    (hall : ∀ x, (hwas x).functional = true →
      RuleType (presentRules pmics) (top.targetType x) → x ∈ targets)
    (hmi : MccsHaveMi top (live top hwas)) :
    Closed top (presentRules pmics) (presentByAssoc top pmics hwas targets) :=
  closed_of_sheltered hall (sheltered_of_nested h hall hmi)

end Rounds

/-! ## A stranded OMIC -/

/-- One MC (0) with a PAUC (1) and two channels: MI 2, MCC 3, OMI 4, OMIC 5,
OCMB 13, port 14, DIMM 15, and MI 6, MCC 7, OMI 8, OMIC 9, OCMB 10, port 11,
DIMM 12. -/
def channelType (t : Fin 16) : TargetType :=
  [.mc, .pauc, .mi, .mcc, .omi, .omic, .mi, .mcc, .omi, .omic, .ocmbChip, .memPort, .dimm,
    .ocmbChip, .memPort, .dimm].getD t .other

/-- The targets above a target by affinity. -/
def channelParents (t : Fin 16) : List (Fin 16) :=
  [[], [], [0], [0, 2], [0, 2, 3], [0], [0], [0, 6], [0, 6, 7], [0], [0, 6, 7, 8],
    [0, 6, 7, 8, 10], [0, 6, 7, 8, 10, 11], [0, 2, 3, 4], [0, 2, 3, 4, 13],
    [0, 2, 3, 4, 13, 14]].getD t []

def channels : Targets (Fin 16) where
  targetClass t :=
    match channelType t with
    | .ocmbChip => .chip
    | .dimm => .logicalCard
    | _ => .unit
  targetType := channelType
  associated a t :=
    match a with
    | .childByAffinity => (List.finRange 16).filter fun x => t ∈ channelParents x
    | .parentByAffinity => channelParents t
    | .child =>
      (List.finRange 16).filter fun x => t ∈ channelParents x ∧ channelType x ∉ [.ocmbChip, .dimm]
        ∧ (channelType x = .memPort → channelType t = .ocmbChip)
    | .omiChild => if t = 5 then [4] else if t = 9 then [8] else []
    | .omicParent => if t = 4 then [5] else if t = 8 then [9] else []
    | .paucChild => if t = 1 then [5, 9] else []
    | .paucParent => if t = 5 ∨ t = 9 then [1] else []
    | .pervasiveChild | .parentPervasive => []

/-- All targets are functional, apart from those of a list. -/
def allBut (missing : List (Fin 16)) (t : Fin 16) : HwasState where
  deconfiguredByEid := .invalid
  poweredOn := true
  present := true
  functional := t ∉ missing
  specdeconfig := false

theorem channels_nested : Nested channels where
  affinity_symm := by decide +kernel
  omi_symm := by decide +kernel
  trans := by decide +kernel
  chain := by decide +kernel
  above := by decide +kernel
  chiplets := by decide +kernel
  same_mc := by
    have hsame : ∀ x o, x ∈ channels.associated .omicParent o →
        ∀ m, channels.targetType m = .mc → (x ∈ channels.associated .childByAffinity m ↔
          o ∈ channels.associated .childByAffinity m) := by
      decide +kernel
    exact fun x o hxo _ _ m hm => hsame x o hxo m hm

/-- The targets from the DIMM upwards, then the other channel. -/
def fromTheDimm : List (Fin 16) := [15, 14, 13, 4, 5, 3, 6, 7, 8, 9, 10, 11, 12, 0, 1]

/-- The MI 2 is not functional.  The OMI 4 and the OMIC 5 are looked at while
both are in order; then the MCC 3 is deconfigured and takes the OMI along.  No
list of the rules holds the OMI any more, so nothing is pushed, and the OMIC
stays functional without an OMI. -/
theorem omic_stranded :
    Nested channels ∧
    (∀ x, (allBut [2] x).functional = true →
      RuleType (presentRules false) (channels.targetType x) → x ∈ fromTheDimm) ∧
    ¬ Closed channels (presentRules false)
      (presentByAssoc channels false (allBut [2]) fromTheDimm) := by
  refine ⟨channels_nested, ?_, ?_⟩
  · have hall : ∀ x, (allBut [2] x).functional = true → x ∈ fromTheDimm := by decide
    exact fun x hx _ => hall x hx
  · have hend : (rounds channels false ⟨fromTheDimm, allBut [2], fun _ => false⟩ 15).targets = [] ∧
        ((rounds channels false ⟨fromTheDimm, allBut [2], fun _ => false⟩ 15).hwas 5).functional
          = true ∧
        ((rounds channels false ⟨fromTheDimm, allBut [2], fun _ => false⟩ 15).hwas 4).functional
          = false := by
      decide +kernel
    intro hclosed
    unfold presentByAssoc at hclosed
    rw [workLoop_eq hend.1] at hclosed
    have hrule : ∃ r ∈ presentRules false, r.checkParent = .checkParent ∧ r.parentType = .omic ∧
        r.getChildren = .omiChild := by
      decide
    obtain ⟨r, hr, hcheck, hparent, hget⟩ := hrule
    obtain ⟨y, hy, -, hyl⟩ := (hclosed 5 hend.2.1 r hr).2 hcheck (by rw [hparent]; decide)
    rw [hget] at hy
    have hy4 : y = 4 := by
      revert hy
      revert y
      decide
    rw [hy4, hend.2.2] at hyl
    exact absurd hyl (by decide)

/-- With the DIMM 12 missing, the promise holds. -/
theorem presentByAssoc_nested_channels :
    Closed channels (presentRules false)
      (presentByAssoc channels false (allBut [12]) (2 :: fromTheDimm)) := by
  refine presentByAssoc_nested channels_nested false (allBut [12]) (2 :: fromTheDimm) ?_ ?_
  · have hevery : ∀ x, x ∈ 2 :: fromTheDimm := by decide
    exact fun x _ _ => hevery x
  · unfold MccsHaveMi live
    decide +kernel

/-- With the DIMM 12 missing, every round is sheltered. -/
theorem presentByAssoc_closed_channels :
    Closed channels (presentRules false)
      (presentByAssoc channels false (allBut [12]) (2 :: fromTheDimm)) := by
  have hall : ∀ x, (allBut [12] x).functional = true →
      RuleType (presentRules false) (channels.targetType x) → x ∈ 2 :: fromTheDimm := by
    have hevery : ∀ x, x ∈ 2 :: fromTheDimm := by decide
    exact fun x _ _ => hevery x
  have hmi : MccsHaveMi channels (live channels (allBut [12])) := by
    unfold MccsHaveMi live
    decide +kernel
  exact (presentByAssoc_closed channels false (allBut [12]) (2 :: fromTheDimm) hall).2
    (sheltered_of_nested channels_nested hall hmi)

end Hostboot.Hwas.Present
