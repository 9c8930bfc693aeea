import Mathlib
import Hostboot.TaskMgr.Core

/-!
# The tree of trackers

The parent pointers and the lists of children agree, and a parent is older than its
children.  While `removeTracker` moves the children of a tracker, the tracker itself is
out of the list of its parent; `Tree` has it as an exception.

The loop of `removeTracker` is two loops.  If the tracker has a parent, its children
move there.  If it has none, its children become children of the kernel, and
those that are finished are removed in the same way.  `Shrinks` says what both leave
of the other trackers.
-/

namespace Hostboot.TaskMgr

open Hostboot.Util
open Function (update_comm update_eq_self update_of_ne update_self)

namespace State

/-- The parent pointer of a tracker. -/
def parentOf (s : State) (c : Nat) : Option (Option Nat) := (s.trackers c).map Tracker.parent

/-- The list of children of a tracker. -/
def childrenOf (s : State) (p : Nat) : List Nat := ((s.trackers p).map Tracker.children).getD []

variable {s : State} {n : Nat} {tracker : Tracker}

theorem parentOf_of_some (h : s.trackers n = some tracker) :
    s.parentOf n = some tracker.parent := by
  simp [parentOf, h]

theorem childrenOf_of_some (h : s.trackers n = some tracker) :
    s.childrenOf n = tracker.children := by
  simp [childrenOf, h]

@[simp] theorem setTracker_trackers (s : State) (n : Nat) (tracker : Tracker) :
    (s.setTracker n tracker).trackers = Function.update s.trackers n (some tracker) := rfl

@[simp] theorem setTracker_created (s : State) (n : Nat) (tracker : Tracker) :
    (s.setTracker n tracker).created = s.created := rfl

@[simp] theorem deleteTracker_trackers (s : State) (n : Nat) :
    (s.deleteTracker n).trackers = Function.update s.trackers n none := rfl

@[simp] theorem parentOf_setTracker (s : State) (n : Nat) (tracker : Tracker) :
    (s.setTracker n tracker).parentOf = Function.update s.parentOf n (some tracker.parent) := by
  funext c
  by_cases heq : c = n
  · simp [parentOf, heq]
  · simp [parentOf, heq]

@[simp] theorem childrenOf_setTracker (s : State) (n : Nat) (tracker : Tracker) :
    (s.setTracker n tracker).childrenOf = Function.update s.childrenOf n tracker.children := by
  funext p
  by_cases heq : p = n
  · simp [childrenOf, heq]
  · simp [childrenOf, heq]

theorem parentOf_congr {s s' : State} (h : s'.trackers = s.trackers) : s'.parentOf = s.parentOf := by
  unfold parentOf
  rw [h]

theorem childrenOf_congr {s s' : State} (h : s'.trackers = s.trackers) :
    s'.childrenOf = s.childrenOf := by
  unfold childrenOf
  rw [h]

end State

/-- The links of the tree agree; the exception is in no list. -/
structure Tree (except : Option Nat) (s : State) : Prop where
  links : ∀ p c, c ∈ s.childrenOf p ↔ s.parentOf c = some (some p) ∧ some c ≠ except
  nodup : ∀ p, (s.childrenOf p).Nodup
  older : ∀ p c, s.parentOf c = some (some p) → p < c
  fresh : ∀ c, s.created ≤ c → s.trackers c = none

/-- What is left of the trackers: `kids` may have been added to the children of
`parent`, and children may be gone. -/
def Shrinks (parent : Option Nat) (kids : List Nat) (s s' : State) : Prop :=
  ∀ q tracker', s'.trackers q = some tracker' → ∃ tracker, s.trackers q = some tracker ∧
    tracker'.key = tracker.key ∧ tracker'.task = tracker.task ∧
    tracker'.status = tracker.status ∧ tracker'.waitInfo = tracker.waitInfo ∧
    ∀ c ∈ tracker'.children, c ∈ tracker.children ∨ (parent = some q ∧ c ∈ kids)

/-- What the loop of `removeTracker` does not touch. -/
structure SameRest (s s' : State) : Prop where
  tasks : s'.tasks = s.tasks
  blockList : s'.blockList = s.blockList
  nextTid : s'.nextTid = s.nextTid
  created : s'.created = s.created
  memory : s'.memory = s.memory

theorem SameRest.trans {s s' s'' : State} (h : SameRest s s') (h' : SameRest s' s'') :
    SameRest s s'' :=
  ⟨h'.tasks.trans h.tasks, h'.blockList.trans h.blockList, h'.nextTid.trans h.nextTid,
    h'.created.trans h.created, h'.memory.trans h.memory⟩

theorem SameRest.insertTracker (s : State) (parent : Option Nat) (c : Nat) :
    SameRest s (s.insertTracker parent c) := by
  cases parent with
  | none => exact ⟨rfl, rfl, rfl, rfl, rfl⟩
  | some p =>
    unfold State.insertTracker
    dsimp only
    split <;> exact ⟨rfl, rfl, rfl, rfl, rfl⟩

theorem SameRest.eraseTracker (s : State) (parent : Option Nat) (c : Nat) :
    SameRest s (s.eraseTracker parent c) := by
  cases parent with
  | none => exact ⟨rfl, rfl, rfl, rfl, rfl⟩
  | some p =>
    unfold State.eraseTracker
    dsimp only
    split <;> exact ⟨rfl, rfl, rfl, rfl, rfl⟩

theorem SameRest.setTracker (s : State) (n : Nat) (tracker : Tracker) :
    SameRest s (s.setTracker n tracker) := ⟨rfl, rfl, rfl, rfl, rfl⟩

theorem SameRest.setParent (s : State) (c : Nat) (parent : Option Nat) :
    SameRest s (s.setParent c parent) := by
  unfold State.setParent
  split <;> exact ⟨rfl, rfl, rfl, rfl, rfl⟩

namespace Shrinks

variable {parent : Option Nat} {kids kids' : List Nat} {s s' s'' : State}

theorem of_trackers (h : s'.trackers = s.trackers) : Shrinks parent kids s s' := by
  intro q tracker hq
  rw [h] at hq
  exact ⟨tracker, hq, rfl, rfl, rfl, rfl, fun c hc => Or.inl hc⟩

theorem trans (h : Shrinks parent kids s s') (h' : Shrinks parent kids' s' s'')
    (hkids : ∀ c ∈ kids', c ∈ kids) : Shrinks parent kids s s'' := by
  intro q tracker'' hq
  obtain ⟨tracker', hq', hkey', htask', hstatus', hwait', hchildren'⟩ := h' q tracker'' hq
  obtain ⟨tracker, hq'', hkey, htask, hstatus, hwait, hchildren⟩ := h q tracker' hq'
  refine ⟨tracker, hq'', hkey'.trans hkey, htask'.trans htask, hstatus'.trans hstatus,
    hwait'.trans hwait, fun c hc => ?_⟩
  rcases hchildren' c hc with hc | ⟨hparent, hc⟩
  · exact hchildren c hc
  · exact Or.inr ⟨hparent, hkids c hc⟩

/-- An update of one tracker that keeps its key, its task, its status and its wait. -/
theorem setTracker {n : Nat} {tracker tracker' : Tracker} (hn : s.trackers n = some tracker)
    (hkey : tracker'.key = tracker.key) (htask : tracker'.task = tracker.task)
    (hstatus : tracker'.status = tracker.status) (hwait : tracker'.waitInfo = tracker.waitInfo)
    (hchildren : ∀ c ∈ tracker'.children, c ∈ tracker.children ∨ (parent = some n ∧ c ∈ kids)) :
    Shrinks parent kids s (s.setTracker n tracker') := by
  intro q other hq
  by_cases heq : q = n
  · subst heq
    rw [State.setTracker_trackers, update_self] at hq
    obtain rfl := Option.some.inj hq
    exact ⟨tracker, hn, hkey, htask, hstatus, hwait, hchildren⟩
  · rw [State.setTracker_trackers, update_of_ne heq] at hq
    exact ⟨other, hq, rfl, rfl, rfl, rfl, fun c hc => Or.inl hc⟩

theorem deleteTracker (s : State) (n : Nat) : Shrinks parent kids s (s.deleteTracker n) := by
  intro q other hq
  by_cases heq : q = n
  · simp [heq] at hq
  · rw [State.deleteTracker_trackers, update_of_ne heq] at hq
    exact ⟨other, hq, rfl, rfl, rfl, rfl, fun c hc => Or.inl hc⟩

end Shrinks

namespace Tree

variable {x : Option Nat} {s s' : State} {t p c : Nat} {tracker : Tracker}

theorem congr (h : Tree x s) (htrackers : s'.trackers = s.trackers)
    (hcreated : s'.created = s.created) : Tree x s' := by
  refine ⟨?_, ?_, ?_, ?_⟩
  · rw [State.parentOf_congr htrackers, State.childrenOf_congr htrackers]
    exact h.links
  · rw [State.childrenOf_congr htrackers]
    exact h.nodup
  · rw [State.parentOf_congr htrackers]
    exact h.older
  · rw [htrackers, hcreated]
    exact h.fresh

theorem setTracker {tracker' : Tracker} (h : Tree x s) (ht : s.trackers t = some tracker)
    (hparent : tracker'.parent = tracker.parent) (hchildren : tracker'.children = tracker.children) :
    Tree x (s.setTracker t tracker') := by
  have hp : (s.setTracker t tracker').parentOf = s.parentOf := by
    rw [State.parentOf_setTracker, hparent, ← State.parentOf_of_some ht, update_eq_self]
  have hc : (s.setTracker t tracker').childrenOf = s.childrenOf := by
    rw [State.childrenOf_setTracker, hchildren, ← State.childrenOf_of_some ht,
      update_eq_self]
  refine ⟨by rw [hp, hc]; exact h.links, by rw [hc]; exact h.nodup, by rw [hp]; exact h.older, ?_⟩
  intro n hn
  rw [State.setTracker_trackers, update_of_ne, h.fresh n hn]
  rintro rfl
  rw [h.fresh n hn] at ht
  exact absurd ht (by simp)

theorem lt_created (h : Tree x s) (ht : s.trackers t = some tracker) : t < s.created := by
  by_contra hge
  rw [h.fresh t (by omega)] at ht
  exact absurd ht (by simp)

theorem child (h : Tree x s) (hc : c ∈ s.childrenOf p) :
    ∃ child, s.trackers c = some child ∧ child.parent = some p := by
  have hparent := ((h.links p c).mp hc).1
  unfold State.parentOf at hparent
  exact Option.map_eq_some_iff.mp hparent

theorem child_gt (h : Tree x s) (hc : c ∈ s.childrenOf p) : p < c :=
  h.older p c ((h.links p c).mp hc).1

/-! ## One child -/

variable {child : Nat} {rest : List Nat}

/-- `remove` of the last child of `t`, and the store to its parent pointer. -/
def takeChild (s : State) (t child : Nat) (tracker : Tracker) (rest : List Nat) : State :=
  (s.setTracker t { tracker with children := rest }).setParent child tracker.parent

theorem last_child (h : Tree x s) (ht : s.trackers t = some tracker)
    (hlist : tracker.children = rest ++ [child]) :
    t < child ∧ child ∉ rest ∧ ∃ ctracker, s.trackers child = some ctracker ∧
      ctracker.parent = some t := by
  have hchildren := State.childrenOf_of_some ht
  have hnodup := h.nodup t
  have hmem : child ∈ s.childrenOf t := by simp [hchildren, hlist]
  rw [hchildren, hlist, List.nodup_append] at hnodup
  refine ⟨h.child_gt hmem, fun hno => ?_, h.child hmem⟩
  exact hnodup.2.2 child hno child (by simp) rfl

theorem takeChild_eq {ctracker : Tracker} (hne : child ≠ t)
    (hchild : s.trackers child = some ctracker) :
    takeChild s t child tracker rest
      = (s.setTracker t { tracker with children := rest }).setTracker child
          { ctracker with parent := tracker.parent } := by
  unfold takeChild State.setParent
  rw [State.setTracker_trackers, update_of_ne hne, hchild]

theorem parentOf_takeChild {ctracker : Tracker} (ht : s.trackers t = some tracker)
    (hne : child ≠ t) (hchild : s.trackers child = some ctracker) :
    (takeChild s t child tracker rest).parentOf
      = Function.update s.parentOf child (some tracker.parent) := by
  rw [takeChild_eq hne hchild, State.parentOf_setTracker, State.parentOf_setTracker,
    ← State.parentOf_of_some ht, update_eq_self]

theorem childrenOf_takeChild {ctracker : Tracker} (hne : child ≠ t)
    (hchild : s.trackers child = some ctracker) :
    (takeChild s t child tracker rest).childrenOf = Function.update s.childrenOf t rest := by
  rw [takeChild_eq hne hchild, State.childrenOf_setTracker, State.childrenOf_setTracker,
    ← State.childrenOf_of_some hchild, update_comm (Ne.symm hne), update_eq_self]

theorem fresh_takeChild {ctracker : Tracker} (h : Tree x s) (ht : s.trackers t = some tracker)
    (hne : child ≠ t) (hchild : s.trackers child = some ctracker) :
    ∀ n, (takeChild s t child tracker rest).created ≤ n →
      (takeChild s t child tracker rest).trackers n = none := by
  intro n hn
  have hlt := h.lt_created ht
  have hlt' := h.lt_created hchild
  rw [takeChild_eq hne hchild, State.setTracker_created, State.setTracker_created] at hn
  rw [takeChild_eq hne hchild, State.setTracker_trackers, State.setTracker_trackers,
    update_of_ne (by omega), update_of_ne (by omega)]
  exact h.fresh n hn

theorem shrinks_takeChild {parent : Option Nat} {kids : List Nat} {ctracker : Tracker}
    (ht : s.trackers t = some tracker) (hlist : tracker.children = rest ++ [child])
    (hne : child ≠ t) (hchild : s.trackers child = some ctracker) :
    Shrinks parent kids s (takeChild s t child tracker rest) := by
  rw [takeChild_eq hne hchild]
  have hfirst : Shrinks parent kids s (s.setTracker t { tracker with children := rest }) := by
    refine Shrinks.setTracker ht rfl rfl rfl rfl fun c hc => ?_
    left
    rw [hlist]
    exact List.mem_append_left _ hc
  have hsame : (s.setTracker t { tracker with children := rest }).trackers child
      = some ctracker := by
    rw [State.setTracker_trackers, update_of_ne hne]
    exact hchild
  refine hfirst.trans (Shrinks.setTracker hsame rfl rfl rfl rfl fun c hc => ?_) fun c hc => hc
  exact Or.inl hc

theorem mem_takeChild (h : Tree x s) (ht : s.trackers t = some tracker)
    (hlist : tracker.children = rest ++ [child]) (q c : Nat) :
    c ∈ Function.update s.childrenOf t rest q ↔ c ∈ s.childrenOf q ∧ c ≠ child := by
  obtain ⟨-, hrest, ctracker, hchild, hcparent⟩ := h.last_child ht hlist
  by_cases hq : q = t
  · rw [hq, update_self, State.childrenOf_of_some ht, hlist, List.mem_append,
      List.mem_singleton]
    exact ⟨fun hc => ⟨.inl hc, fun heq => hrest (heq ▸ hc)⟩, fun hc => hc.1.resolve_right hc.2⟩
  · rw [update_of_ne hq]
    refine ⟨fun hc => ⟨hc, fun heq => ?_⟩, And.left⟩
    have hqt := ((h.links q c).mp hc).1
    rw [heq, State.parentOf_of_some hchild, hcparent] at hqt
    simp only [Option.some.injEq] at hqt
    exact hq hqt.symm

theorem nodup_takeChild (h : Tree x s) (ht : s.trackers t = some tracker)
    (hlist : tracker.children = rest ++ [child]) (q : Nat) :
    (Function.update s.childrenOf t rest q).Nodup := by
  by_cases hq : q = t
  · have hnodup := h.nodup t
    rw [State.childrenOf_of_some ht, hlist] at hnodup
    rw [hq, update_self]
    exact hnodup.of_append_left
  · rw [update_of_ne hq]
    exact h.nodup q

theorem orphan (h : Tree x s) (ht : s.trackers t = some tracker) (hparent : tracker.parent = none)
    (hlist : tracker.children = rest ++ [child]) : Tree x (takeChild s t child tracker rest) := by
  obtain ⟨hlt, -, ctracker, hchild, -⟩ := h.last_child ht hlist
  have hne : child ≠ t := by omega
  have hp : (takeChild s t child tracker rest).parentOf
      = Function.update s.parentOf child (some none) := by
    rw [parentOf_takeChild ht hne hchild, hparent]
  have hc : (takeChild s t child tracker rest).childrenOf = Function.update s.childrenOf t rest :=
    childrenOf_takeChild hne hchild
  refine ⟨fun q c => ?_, fun q => ?_, fun q c hq => ?_, h.fresh_takeChild ht hne hchild⟩
  · rw [hp, hc, h.mem_takeChild ht hlist, h.links]
    by_cases heq : c = child
    · rw [heq, update_self]
      simp
    · rw [update_of_ne heq]
      simp [heq]
  · rw [hc]
    exact h.nodup_takeChild ht hlist q
  · rw [hp] at hq
    by_cases heq : c = child
    · subst heq
      simp at hq
    · rw [update_of_ne heq] at hq
      exact h.older q c hq

/-- The child of a tracker that is out of the list of its parent moves to the parent. -/
theorem moveUp (h : Tree (some t) s) (ht : s.trackers t = some tracker)
    (hparent : tracker.parent = some p) (hlist : tracker.children = rest ++ [child])
    (hp : (s.trackers p).isSome) :
    Tree (some t) ((takeChild s t child tracker rest).insertTracker (some p) child) ∧
      Shrinks (some p) tracker.children s
        ((takeChild s t child tracker rest).insertTracker (some p) child) ∧
      ((takeChild s t child tracker rest).insertTracker (some p) child).trackers t
        = some { tracker with children := rest } ∧
      (((takeChild s t child tracker rest).insertTracker (some p) child).trackers p).isSome := by
  obtain ⟨hlt, -, ctracker, hchild, hcparent⟩ := h.last_child ht hlist
  obtain ⟨ptracker, hptracker⟩ := Option.isSome_iff_exists.mp hp
  have hpt : p < t := h.older p t (by rw [State.parentOf_of_some ht, hparent])
  have hne : child ≠ t := by omega
  have hpchildren := State.childrenOf_of_some hptracker
  have hcparent' : s.parentOf child = some (some t) := by
    rw [State.parentOf_of_some hchild, hcparent]
  have hinsert : (takeChild s t child tracker rest).insertTracker (some p) child
      = (takeChild s t child tracker rest).setTracker p
          { ptracker with children := child :: ptracker.children } := by
    unfold State.insertTracker
    rw [takeChild_eq hne hchild]
    simp only [State.setTracker_trackers]
    rw [update_of_ne (by omega : p ≠ child), update_of_ne (by omega : p ≠ t),
      hptracker]
  have hself : (takeChild s t child tracker rest).trackers p = some ptracker := by
    rw [takeChild_eq hne hchild]
    simp only [State.setTracker_trackers]
    rw [update_of_ne (by omega : p ≠ child), update_of_ne (by omega : p ≠ t)]
    exact hptracker
  have hparentOf : ((takeChild s t child tracker rest).insertTracker (some p) child).parentOf
      = Function.update s.parentOf child (some (some p)) := by
    rw [hinsert, State.parentOf_setTracker, ← State.parentOf_of_some hself, update_eq_self,
      parentOf_takeChild ht hne hchild, hparent]
  have hchildrenOf : ((takeChild s t child tracker rest).insertTracker (some p) child).childrenOf
      = Function.update (Function.update s.childrenOf t rest) p (child :: s.childrenOf p) := by
    rw [hinsert, State.childrenOf_setTracker, childrenOf_takeChild hne hchild, hpchildren]
  have hnot : child ∉ s.childrenOf p := by
    rw [h.links, hcparent']
    intro hno
    have hqt := hno.1
    simp only [Option.some.injEq] at hqt
    omega
  refine ⟨⟨fun q c => ?_, fun q => ?_, fun q c hq => ?_, fun n hn => ?_⟩, ?_, ?_, ?_⟩
  · rw [hparentOf, hchildrenOf]
    by_cases hqp : q = p
    · subst hqp
      rw [update_self, List.mem_cons]
      by_cases heq : c = child
      · subst heq
        simp [hne]
      · rw [update_of_ne heq, ← h.links]
        simp [heq]
    · rw [update_of_ne hqp, h.mem_takeChild ht hlist, h.links]
      by_cases heq : c = child
      · rw [heq, update_self]
        simp [Ne.symm hqp]
      · rw [update_of_ne heq]
        simp [heq]
  · rw [hchildrenOf]
    by_cases hqp : q = p
    · subst hqp
      rw [update_self]
      exact List.nodup_cons.mpr ⟨hnot, h.nodup q⟩
    · rw [update_of_ne hqp]
      exact h.nodup_takeChild ht hlist q
  · rw [hparentOf] at hq
    by_cases heq : c = child
    · subst heq
      rw [update_self] at hq
      simp only [Option.some.injEq] at hq
      omega
    · rw [update_of_ne heq] at hq
      exact h.older q c hq
  · rw [hinsert, State.setTracker_created] at hn
    have hnone := h.fresh_takeChild ht hne hchild n hn
    rw [hinsert, State.setTracker_trackers, update_of_ne, hnone]
    rintro rfl
    exact absurd (hself.symm.trans hnone) (by simp)
  · rw [hinsert]
    refine (shrinks_takeChild ht hlist hne hchild).trans
      (Shrinks.setTracker hself rfl rfl rfl rfl fun c hc => ?_) fun c hc => hc
    rcases List.mem_cons.mp hc with rfl | hc
    · right
      exact ⟨rfl, by simp [hlist]⟩
    · exact Or.inl hc
  · rw [hinsert, State.setTracker_trackers, update_of_ne (by omega : t ≠ p),
      takeChild_eq hne hchild, State.setTracker_trackers, update_of_ne (Ne.symm hne),
      State.setTracker_trackers, update_self]
  · rw [hinsert, State.setTracker_trackers, update_self]
    rfl

theorem delete (h : Tree x s) (ht : s.trackers t = some tracker) (hchildren : tracker.children = [])
    (hout : x = some t ∨ (x = none ∧ tracker.parent = none)) : Tree none (s.deleteTracker t) := by
  have hc : (s.deleteTracker t).childrenOf = s.childrenOf := by
    funext q
    by_cases hq : q = t
    · subst hq
      rw [State.childrenOf_of_some ht, hchildren]
      simp [State.childrenOf]
    · simp [State.childrenOf, hq]
  have hp : (s.deleteTracker t).parentOf = Function.update s.parentOf t none := by
    funext q
    by_cases hq : q = t
    · simp [State.parentOf, hq]
    · simp [State.parentOf, hq]
  refine ⟨fun q c => ?_, by rw [hc]; exact h.nodup, fun q c hq => ?_, fun n hn => ?_⟩
  · rw [hp, hc]
    have hlink := h.links q c
    by_cases heq : c = t
    · subst heq
      rw [update_self, hlink, State.parentOf_of_some ht]
      rcases hout with rfl | ⟨rfl, hparent⟩
      · simp
      · simp [hparent]
    · rw [update_of_ne heq, hlink]
      rcases hout with rfl | ⟨rfl, -⟩
      · simp [heq]
      · simp
  · rw [hp] at hq
    by_cases heq : c = t
    · subst heq
      simp at hq
    · rw [update_of_ne heq] at hq
      exact h.older q c hq
  · rw [State.deleteTracker_trackers]
    by_cases heq : n = t
    · rw [heq, update_self]
    · rw [update_of_ne heq]
      exact h.fresh n hn

theorem erase (h : Tree none s) (ht : s.trackers t = some tracker)
    (hparent : tracker.parent = some p) :
    Tree (some t) (s.eraseTracker (some p) t) ∧ Shrinks none [] s (s.eraseTracker (some p) t) ∧
      (s.eraseTracker (some p) t).trackers t = some tracker ∧
      ((s.eraseTracker (some p) t).trackers p).isSome := by
  have hlink : s.parentOf t = some (some p) := by rw [State.parentOf_of_some ht, hparent]
  have hmem : t ∈ s.childrenOf p := (h.links p t).mpr ⟨hlink, by simp⟩
  have hpt : p < t := h.older p t hlink
  have hsome : ∃ ptracker, s.trackers p = some ptracker := by
    apply Option.ne_none_iff_exists'.mp
    intro hnone
    simp [State.childrenOf, hnone] at hmem
  obtain ⟨ptracker, hptracker⟩ := hsome
  have herase : s.eraseTracker (some p) t
      = s.setTracker p { ptracker with children := ptracker.children.erase t } := by
    simp [State.eraseTracker, hptracker]
  have hpchildren := State.childrenOf_of_some hptracker
  have hp : (s.eraseTracker (some p) t).parentOf = s.parentOf := by
    rw [herase, State.parentOf_setTracker, ← State.parentOf_of_some hptracker,
      update_eq_self]
  have hc : (s.eraseTracker (some p) t).childrenOf
      = Function.update s.childrenOf p ((s.childrenOf p).erase t) := by
    rw [herase, State.childrenOf_setTracker, hpchildren]
  refine ⟨⟨fun q c => ?_, fun q => ?_, by rw [hp]; exact h.older, fun n hn => ?_⟩, ?_, ?_, ?_⟩
  · rw [hp, hc]
    have hold := h.links q c
    by_cases hqp : q = p
    · subst hqp
      rw [update_self, (h.nodup q).mem_erase_iff, hold]
      simp [and_comm]
    · rw [update_of_ne hqp, hold]
      refine ⟨fun hq => ⟨hq.1, fun heq => ?_⟩, fun hq => ⟨hq.1, by simp⟩⟩
      obtain rfl := Option.some.inj heq
      rw [hlink] at hq
      have hqp' := hq.1
      simp only [Option.some.injEq] at hqp'
      exact hqp hqp'.symm
  · rw [hc]
    by_cases hqp : q = p
    · subst hqp
      rw [update_self]
      exact (h.nodup q).erase t
    · rw [update_of_ne hqp]
      exact h.nodup q
  · rw [herase, State.setTracker_created] at hn
    rw [herase, State.setTracker_trackers, update_of_ne, h.fresh n hn]
    rintro rfl
    exact absurd (hptracker.symm.trans (h.fresh n hn)) (by simp)
  · rw [herase]
    refine Shrinks.setTracker hptracker rfl rfl rfl rfl fun c hc => ?_
    exact Or.inl (List.mem_of_mem_erase hc)
  · rw [herase, State.setTracker_trackers, update_of_ne (by omega), ht]
  · rw [herase, State.setTracker_trackers, update_self]
    rfl

end Tree

/-! ## The loop of `removeTracker` -/

theorem drain_succ (fuel : Nat) {t : Nat} {s : State} {tracker : Tracker}
    (ht : s.trackers t = some tracker) :
    (tracker.children = [] ∧ drain (fuel + 1) s t = some (s.deleteTracker t)) ∨
      ∃ child rest, tracker.children = rest ++ [child] ∧
        drain (fuel + 1) s t =
          let s := Tree.takeChild s t child tracker rest
          if tracker.parent = none ∧ s.finished child then
            if s.crashed child then none
            else (drain fuel (s.eraseTracker none child) child).bind fun s => drain fuel s t
          else drain fuel (s.insertTracker tracker.parent child) t := by
  rw [drain]
  simp only [ht]
  cases hremove : Queue.remove tracker.children with
  | none => exact Or.inl ⟨Queue.remove_eq_none hremove, rfl⟩
  | some pair => exact Or.inr ⟨pair.1, pair.2, Queue.remove_eq_some hremove, rfl⟩

theorem drain_parent {fuel t p : Nat} {s s' : State} {tracker : Tracker} (h : Tree (some t) s)
    (ht : s.trackers t = some tracker) (hparent : tracker.parent = some p)
    (hp : (s.trackers p).isSome) (hdrain : drain fuel s t = some s') :
    Tree none s' ∧ Shrinks (some p) tracker.children s s' := by
  induction fuel generalizing s tracker with
  | zero => exact absurd hdrain (by simp [drain])
  | succ fuel ih =>
    rcases drain_succ fuel ht with ⟨hnil, heq⟩ | ⟨child, rest, hlist, heq⟩
    · rw [heq] at hdrain
      obtain rfl := Option.some.inj hdrain
      exact ⟨h.delete ht hnil (Or.inl rfl), Shrinks.deleteTracker s t⟩
    · rw [heq] at hdrain
      dsimp only at hdrain
      rw [if_neg (by simp [hparent]), hparent] at hdrain
      obtain ⟨htree, hshrinks, ht', hp'⟩ := h.moveUp ht hparent hlist hp
      obtain ⟨htree', hshrinks'⟩ := ih htree ht' hparent hp' hdrain
      refine ⟨htree', hshrinks.trans hshrinks' fun c hc => ?_⟩
      rw [hlist]
      exact List.mem_append_left _ hc

/-- What the loop does to the other trackers, for a tracker without parent. -/
structure Drained (t : Nat) (s s' : State) : Prop where
  shrinks : Shrinks none [] s s'
  roots : ∀ q tracker, s.trackers q = some tracker → q ≠ t → tracker.parent = none →
    s'.trackers q = some tracker
  parents : ∀ q p, s'.parentOf q = some (some p) → s.parentOf q = some (some p)

namespace Drained

variable {t c : Nat} {s s' s'' : State}

theorem trans (h : Drained t s s') (h' : Drained t s' s'') : Drained t s s'' where
  shrinks := h.shrinks.trans h'.shrinks fun _ hc => hc
  roots q tracker hq hqt hparent := h'.roots q tracker (h.roots q tracker hq hqt hparent) hqt hparent
  parents q p hq := h.parents q p (h'.parents q p hq)

theorem then_child (h : Drained t s s') (hchild : s.parentOf c = some (some t))
    (h' : Drained c s' s'') : Drained t s s'' where
  shrinks := h.shrinks.trans h'.shrinks fun _ hc => hc
  roots q tracker hq hqt hparent := by
    apply h'.roots q tracker (h.roots q tracker hq hqt hparent) _ hparent
    rintro rfl
    rw [State.parentOf_of_some hq, hparent] at hchild
    exact absurd hchild (by simp)
  parents q p hq := h.parents q p (h'.parents q p hq)

theorem of_trackers (htrackers : s'.trackers = s.trackers) : Drained t s s' where
  shrinks := Shrinks.of_trackers htrackers
  roots q tracker hq _ _ := by
    rw [htrackers]
    exact hq
  parents q p hq := by
    rw [State.parentOf_congr htrackers] at hq
    exact hq

theorem takeChild {child : Nat} {tracker : Tracker} {rest : List Nat}
    (h : Tree none s) (ht : s.trackers t = some tracker) (hparent : tracker.parent = none)
    (hlist : tracker.children = rest ++ [child]) :
    Drained t s (Tree.takeChild s t child tracker rest) := by
  obtain ⟨hlt, -, ctracker, hchild, hcparent⟩ := h.last_child ht hlist
  have hne : child ≠ t := by omega
  refine ⟨Tree.shrinks_takeChild ht hlist hne hchild, fun q qtracker hq hqt hqparent => ?_,
    fun q p hq => ?_⟩
  · have hqc : q ≠ child := by
      rintro rfl
      rw [hchild] at hq
      obtain rfl := Option.some.inj hq
      exact absurd (hcparent.symm.trans hqparent) (by simp)
    rw [Tree.takeChild_eq hne hchild, State.setTracker_trackers, update_of_ne hqc,
      State.setTracker_trackers, update_of_ne hqt]
    exact hq
  · rw [Tree.parentOf_takeChild ht hne hchild, hparent] at hq
    by_cases heq : q = child
    · rw [heq, update_self] at hq
      exact absurd hq (by simp)
    · rw [update_of_ne heq] at hq
      exact hq

theorem deleteTracker (s : State) (t : Nat) : Drained t s (s.deleteTracker t) where
  shrinks := Shrinks.deleteTracker s t
  roots q tracker hq hqt _ := by
    rw [State.deleteTracker_trackers, update_of_ne hqt]
    exact hq
  parents q p hq := by
    by_cases heq : q = t
    · simp [State.parentOf, heq] at hq
    · simpa [State.parentOf, heq] using hq

end Drained

theorem Tree.takeChild_trackers {t child : Nat} {s : State} {ctracker : Tracker}
    (hne : child ≠ t) (hchild : s.trackers child = some ctracker) (tracker : Tracker)
    (rest : List Nat) :
    (Tree.takeChild s t child tracker rest).trackers t = some { tracker with children := rest } ∧
      (Tree.takeChild s t child tracker rest).trackers child
        = some { ctracker with parent := tracker.parent } := by
  rw [Tree.takeChild_eq hne hchild, State.setTracker_trackers]
  refine ⟨?_, update_self _ _ _⟩
  rw [update_of_ne (Ne.symm hne), State.setTracker_trackers, update_self]

theorem drain_root {fuel t : Nat} {s s' : State} {tracker : Tracker} (h : Tree none s)
    (ht : s.trackers t = some tracker) (hparent : tracker.parent = none)
    (hdrain : drain fuel s t = some s') : Tree none s' ∧ Drained t s s' := by
  induction fuel generalizing s t tracker s' with
  | zero => exact absurd hdrain (by simp [drain])
  | succ fuel ih =>
    rcases drain_succ fuel ht with ⟨hnil, heq⟩ | ⟨child, rest, hlist, heq⟩
    · rw [heq] at hdrain
      obtain rfl := Option.some.inj hdrain
      exact ⟨h.delete ht hnil (Or.inr ⟨rfl, hparent⟩), Drained.deleteTracker s t⟩
    · obtain ⟨hlt, -, ctracker, hchild, hcparent⟩ := h.last_child ht hlist
      have hne : child ≠ t := by omega
      have htree := h.orphan ht hparent hlist
      have htaken := Drained.takeChild h ht hparent hlist
      obtain ⟨ht', hc'⟩ := Tree.takeChild_trackers hne hchild tracker rest
      rw [heq] at hdrain
      dsimp only at hdrain
      split_ifs at hdrain with hfinished hcrashed
      · -- The child is finished: it is removed first, then the loop goes on.
        obtain ⟨s1, hs1, hdrain⟩ := Option.bind_eq_some_iff.mp hdrain
        have hout : Drained t s ((Tree.takeChild s t child tracker rest).eraseTracker none child) :=
          htaken.trans (Drained.of_trackers rfl)
        have htree0 : Tree none ((Tree.takeChild s t child tracker rest).eraseTracker none child) :=
          htree.congr rfl rfl
        obtain ⟨htree1, hfirst⟩ := ih htree0 hc' hparent hs1
        have ht1 := hfirst.roots t _ ht' (Ne.symm hne) hparent
        obtain ⟨htree', hlast⟩ := ih htree1 ht1 hparent hdrain
        refine ⟨htree', (hout.then_child ?_ hfirst).trans hlast⟩
        rw [State.parentOf_of_some hchild, hcparent]
      · rw [hparent] at hdrain
        have htree0 : Tree none ((Tree.takeChild s t child tracker rest).insertTracker none child) :=
          htree.congr rfl rfl
        obtain ⟨htree', hlast⟩ := ih htree0 ht' hparent hdrain
        have hout : Drained t s ((Tree.takeChild s t child tracker rest).insertTracker none child) :=
          htaken.trans (Drained.of_trackers rfl)
        exact ⟨htree', hout.trans hlast⟩

theorem drain_deletes {fuel t : Nat} {s s' : State} (h : drain fuel s t = some s') :
    s'.trackers t = none := by
  induction fuel generalizing s with
  | zero => exact absurd h (by simp [drain])
  | succ fuel ih =>
    rw [drain] at h
    split at h
    · exact absurd h (by simp)
    · split at h
      · obtain rfl := Option.some.inj h
        rw [State.deleteTracker_trackers, update_self]
      · dsimp only at h
        split_ifs at h
        · obtain ⟨s1, -, h⟩ := Option.bind_eq_some_iff.mp h
          exact ih h
        · exact ih h

theorem drain_sameRest {fuel t : Nat} {s s' : State} (h : drain fuel s t = some s') :
    SameRest s s' := by
  induction fuel generalizing s t s' with
  | zero => exact absurd h (by simp [drain])
  | succ fuel ih =>
    rw [drain] at h
    split at h
    · exact absurd h (by simp)
    · rename_i tracker htracker
      split at h
      · obtain rfl := Option.some.inj h
        exact ⟨rfl, rfl, rfl, rfl, rfl⟩
      · rename_i child rest hremove
        have htaken : SameRest s
            ((s.setTracker t { tracker with children := rest }).setParent child tracker.parent) :=
          (SameRest.setTracker s t _).trans (SameRest.setParent _ _ _)
        dsimp only at h
        split_ifs at h
        · obtain ⟨s1, hs1, h⟩ := Option.bind_eq_some_iff.mp h
          exact ((htaken.trans (SameRest.eraseTracker _ _ _)).trans (ih hs1)).trans (ih h)
        · exact (htaken.trans (SameRest.insertTracker _ _ _)).trans (ih h)

/-! ## `removeTracker` -/

section Remove

variable {t : Nat} {s s' : State} {tracker : Tracker}

theorem Shrinks.mono {parent : Option Nat} {kids : List Nat} (h : Shrinks none [] s s') :
    Shrinks parent kids s s' := by
  intro q tracker' hq
  obtain ⟨tracker, hq', hkey, htask, hstatus, hwait, hchildren⟩ := h q tracker' hq
  refine ⟨tracker, hq', hkey, htask, hstatus, hwait, fun c hc => ?_⟩
  rcases hchildren c hc with hc | ⟨-, hc⟩
  · exact Or.inl hc
  · exact absurd hc (by simp)

theorem removeTracker_sameRest (h : s.removeTracker t = some s') : SameRest s s' := by
  unfold State.removeTracker at h
  split at h
  · exact absurd h (by simp)
  · exact (SameRest.eraseTracker _ _ _).trans (drain_sameRest h)

/-- `removeTracker` keeps the tree, and moves the children to the parent if there is
one. -/
theorem Tree.removeTracker (h : Tree none s) (ht : s.trackers t = some tracker)
    (hremove : s.removeTracker t = some s') :
    Tree none s' ∧ s'.trackers t = none ∧ Shrinks tracker.parent tracker.children s s' := by
  unfold State.removeTracker at hremove
  rw [ht] at hremove
  dsimp only at hremove
  have hnone := drain_deletes hremove
  cases hparent : tracker.parent with
  | none =>
    rw [hparent] at hremove
    have herased : Tree none (s.eraseTracker none t) := h.congr rfl rfl
    obtain ⟨htree, hdrained⟩ := drain_root herased ht hparent hremove
    exact ⟨htree, hnone, hdrained.shrinks.mono⟩
  | some p =>
    rw [hparent] at hremove
    obtain ⟨herased, hshrinks, ht', hp⟩ := h.erase ht hparent
    obtain ⟨htree, hdrained⟩ := drain_parent herased ht' hparent hp hremove
    exact ⟨htree, hnone, hshrinks.mono.trans hdrained fun _ hc => hc⟩

end Remove

end Hostboot.TaskMgr
