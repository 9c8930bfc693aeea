import Hostboot.Util.SplaySearch

/-!
# Insertion into a tree in any state

`SplayTree::insert` asks for a node whose key is not in the tree.  What it does
otherwise is of no use, but it is not without bounds: it only follows and
rewrites links of nodes that the tree's links lead to, and it counts one more
node.  `Within` is the closure under links, and `StaysIn` says that an operation
kept to it.  Nothing here asks for a tree that is linked as it should be.
-/

namespace Hostboot.Util.SplayTree

open Hostboot.Lib Hostboot.Lib.LinkedTree

universe u

variable {α D K V : Type u} [DecidableEq α]

/-- The header's links lead into `S`, and so do the links of the nodes of `S`. -/
structure Within (S : α → Prop) (t : Tree α D) : Prop where
  root : ∀ a, t.header.parent = some a → S a
  ends : ∀ s a, t.header.child s = some a → S a
  parent : ∀ a, S a → ∀ b, t.parent a = some b → S b
  child : ∀ a, S a → ∀ s b, t.child a s = some b → S b

/-- The operation only wrote links of nodes of `S`, and only into `S`. -/
structure StaysIn (S : α → Prop) (t t' : Tree α D) : Prop where
  within : Within S t'
  parent : ∀ a, ¬S a → t'.parent a = t.parent a
  child : ∀ a, ¬S a → t'.child a = t.child a
  data : t'.data = t.data
  live : t'.live = t.live
  size : t'.header.data = t.header.data

namespace StaysIn

variable {S : α → Prop} {t t1 t2 : Tree α D}

omit [DecidableEq α] in
theorem refl (h : Within S t) : StaysIn S t t :=
  ⟨h, fun _ _ => rfl, fun _ _ => rfl, rfl, rfl, rfl⟩

omit [DecidableEq α] in
theorem trans (h1 : StaysIn S t t1) (h2 : StaysIn S t1 t2) : StaysIn S t t2 where
  within := h2.within
  parent a ha := (h2.parent a ha).trans (h1.parent a ha)
  child a ha := (h2.child a ha).trans (h1.child a ha)
  data := h2.data.trans h1.data
  live := h2.live.trans h1.live
  size := h2.size.trans h1.size

theorem setParent (h : Within S t) {a : α} (ha : S a) {p : Option α} (hp : ∀ b, p = some b → S b) :
    StaysIn S t (setParent t a p) := by
  refine ⟨⟨h.root, h.ends, fun b hb c hc => ?_, h.child⟩, fun b hb => ?_, fun _ _ => rfl, rfl,
    rfl, rfl⟩
  · rw [setParent_parent] at hc
    split at hc
    · exact hp c hc
    · exact h.parent b hb c hc
  · rw [setParent_parent, if_neg fun heq : b = a => hb (heq ▸ ha)]

theorem setChild (h : Within S t) {a : α} (ha : S a) (s : Side) {c : Option α}
    (hc : ∀ b, c = some b → S b) : StaysIn S t (setChild t a s c) := by
  refine ⟨⟨h.root, h.ends, h.parent, fun b hb d e he => ?_⟩, fun _ _ => rfl, fun b hb => ?_, rfl,
    rfl, rfl⟩
  · rw [setChild_child] at he
    split at he
    · exact hc e he
    · exact h.child b hb d e he
  · funext d
    rw [setChild_child, if_neg fun heq : b = a ∧ d = s => hb (heq.1 ▸ ha)]

theorem adopt (h : Within S t) {c p : Option α} (hc : ∀ b, c = some b → S b)
    (hp : ∀ b, p = some b → S b) : StaysIn S t (adopt t c p) := by
  cases c with
  | none => exact refl h
  | some c => exact setParent h (hc c rfl) hp

theorem relink (h : Within S t) {up c : Option α} (hup : ∀ b, up = some b → S b) (old : α)
    (hc : ∀ b, c = some b → S b) : StaysIn S t (relink t up old c) := by
  cases up with
  | none =>
    exact ⟨⟨fun a ha => hc a ha, h.ends, h.parent, h.child⟩, fun _ _ => rfl, fun _ _ => rfl, rfl,
      rfl, rfl⟩
  | some g => exact setChild h (hup g rfl) _ hc

omit [DecidableEq α] in
theorem setEnd (h : Within S t) (s : Side) {c : Option α} (hc : ∀ b, c = some b → S b) :
    StaysIn S t (setEnd t s c) := by
  refine ⟨⟨h.root, fun d a ha => ?_, h.parent, h.child⟩, fun _ _ => rfl, fun _ _ => rfl, rfl, rfl,
    rfl⟩
  by_cases hd : d = s
  · subst hd
    exact hc a ((Function.update_self d _ _).symm.trans ha)
  · exact h.ends d a ((Function.update_of_ne hd _ _).symm.trans ha)

theorem rotate (h : Within S t) {n : α} (hn : S n) {d : Side} {t' : Tree α D}
    (hrot : rotate t n d = some t') : StaysIn S t t' := by
  cases hp : t.parent n with
  | none => simp [SplayTree.rotate, hp] at hrot
  | some p =>
    have hSp : S p := h.parent n hn p hp
    have hx : ∀ b, t.child n d = some b → S b := h.child n hn d
    have hsome : ∀ {a : α}, S a → ∀ b, some a = some b → S b := by
      intro a ha b hb
      rw [← Option.some.inj hb]
      exact ha
    have h1 := setChild h hSp d.flip hx
    have h2 := h1.trans (adopt h1.within hx (hsome hSp))
    have hup := h2.within.parent p hSp
    have h3 := h2.trans (setParent h2.within hn hup)
    have h4 := h3.trans (relink h3.within hup p (hsome hn))
    have h5 := h4.trans (setParent h4.within hSp (hsome hn))
    have h6 := h5.trans (setChild h5.within hn d (hsome hSp))
    simp only [SplayTree.rotate, hp, Option.bind_eq_bind, Option.bind_some,
      Option.some.injEq] at hrot
    rw [← hrot]
    exact h6

theorem rotateUp (h : Within S t) {n : α} (hn : S n) {t' : Tree α D}
    (hrot : rotateUp t n = some t') : StaysIn S t t' := by
  cases hp : t.parent n with
  | none => simp [SplayTree.rotateUp, hp] at hrot
  | some p =>
    simp only [SplayTree.rotateUp, hp, Option.bind_eq_bind, Option.bind_some] at hrot
    exact rotate h hn hrot

theorem splay {fuel : Nat} (h : Within S t) {n : α} (hn : S n) {t' : Tree α D}
    (hsplay : splay fuel t n = some t') : StaysIn S t t' := by
  induction fuel generalizing t with
  | zero => exact absurd hsplay (by simp [SplayTree.splay])
  | succ fuel ih =>
    rw [SplayTree.splay] at hsplay
    cases hp : t.parent n with
    | none =>
      rw [hp] at hsplay
      obtain rfl := Option.some.inj hsplay
      exact refl h
    | some p =>
      simp only [hp] at hsplay
      cases hg : t.parent p with
      | none =>
        simp only [hg] at hsplay
        exact rotateUp h hn hsplay
      | some g =>
        have hSp : S p := h.parent n hn p hp
        simp only [hg, Option.bind_eq_bind] at hsplay
        split at hsplay
        · obtain ⟨t1, hrot1, hsplay⟩ := Option.bind_eq_some_iff.mp hsplay
          obtain ⟨t2, hrot2, hsplay⟩ := Option.bind_eq_some_iff.mp hsplay
          have h1 := rotateUp h hSp hrot1
          have h2 := h1.trans (rotateUp h1.within hn hrot2)
          exact h2.trans (ih h2.within hsplay)
        · obtain ⟨t1, hrot1, hsplay⟩ := Option.bind_eq_some_iff.mp hsplay
          obtain ⟨t2, hrot2, hsplay⟩ := Option.bind_eq_some_iff.mp hsplay
          have h1 := rotateUp h hn hrot1
          have h2 := h1.trans (rotateUp h1.within hn hrot2)
          exact h2.trans (ih h2.within hsplay)

end StaysIn

variable {S : α → Prop}

omit [DecidableEq α] in
theorem Within.farthest {t : Tree α D} (h : Within S t) {s : Side} {fuel : Nat} {a b : α}
    (ha : S a) (hfar : farthest t s fuel a = some b) : S b := by
  induction fuel generalizing a with
  | zero => exact absurd hfar (by simp [SplayTree.farthest])
  | succ fuel ih =>
    rw [SplayTree.farthest] at hfar
    cases hc : t.child a s with
    | none =>
      rw [hc] at hfar
      rw [← Option.some.inj hfar]
      exact ha
    | some c =>
      rw [hc] at hfar
      exact ih (h.child a ha s c hc) hfar

omit [DecidableEq α] in
theorem Within.find {comp : K → K → Bool} {t : Tree α (K × V)} (h : Within S t) {k : K}
    {fuel : Nat} {a b : α} {r : Bool} (ha : S a) (hfind : find comp t k fuel a = some (r, b)) :
    S b := by
  induction fuel generalizing a with
  | zero => exact absurd hfind (by simp [SplayTree.find])
  | succ fuel ih =>
    simp only [SplayTree.find] at hfind
    split at hfind
    · rw [← (Prod.mk.inj (Option.some.inj hfind)).2]
      exact ha
    · split at hfind
      · rw [← (Prod.mk.inj (Option.some.inj hfind)).2]
        exact ha
      · rename_i c hc
        refine ih ?_ hfind
        split at hc
        · exact h.child a ha _ c hc
        · exact h.child a ha _ c hc

theorem StaysIn.insertUnder {comp : K → K → Bool} {t : Tree α (K × V)} (h : Within S t)
    {fuel : Nat} {a n : α} (ha : S a) (hn : S n) {t' : Tree α (K × V)}
    (hins : insertUnder comp t fuel a n = some t') : StaysIn S t t' := by
  induction fuel generalizing a n with
  | zero => exact absurd hins (by simp [SplayTree.insertUnder])
  | succ fuel ih =>
    simp only [SplayTree.insertUnder] at hins
    split at hins
    · obtain rfl := Option.some.inj hins
      have h1 := StaysIn.setChild (c := some n) h ha
        (if 0 > compare comp (t.key n) (t.key a) then Side.left else Side.right)
        fun b hb => Option.some.inj hb ▸ hn
      exact h1.trans (.setParent h1.within hn fun b hb => Option.some.inj hb ▸ ha)
    · rename_i c hc
      exact ih hn (h.child a ha _ c hc) hins

omit [DecidableEq α] in
theorem StaysIn.refreshEnd {t : Tree α (K × V)} (h : Within S t) {s : Side}
    {t' : Tree α (K × V)} (hend : refreshEnd t s = some t') : StaysIn S t t' := by
  obtain ⟨a, ha, hend⟩ := Option.bind_eq_some_iff.mp hend
  obtain ⟨b, hb, hend⟩ := Option.bind_eq_some_iff.mp hend
  obtain rfl := Option.some.inj hend
  refine .setEnd h s fun c hc => ?_
  rw [← Option.some.inj hc]
  exact h.farthest (h.ends s a ha) hb

/-- An insertion keeps to the nodes that the links lead to, and counts one node
more. -/
theorem insert_staysIn {comp : K → K → Bool} {t t' : Tree α (K × V)} (h : Within S t) {n : α}
    (hn : S n) (hinsert : insert comp t n = some t') :
    Within S t' ∧ (∀ a, ¬S a → t'.parent a = t.parent a) ∧ (∀ a, ¬S a → t'.child a = t.child a) ∧
      t'.data = t.data ∧ t'.live = t.live ∧ t'.header.data = t.header.data + 1 := by
  -- Without the count.
  have hcount : ∀ t1, StaysIn S t t1 → t' = incrementSize t1 →
      Within S t' ∧ (∀ a, ¬S a → t'.parent a = t.parent a) ∧ (∀ a, ¬S a → t'.child a = t.child a) ∧
        t'.data = t.data ∧ t'.live = t.live ∧ t'.header.data = t.header.data + 1 := by
    rintro t1 hstays rfl
    exact ⟨⟨hstays.within.root, hstays.within.ends, hstays.within.parent, hstays.within.child⟩,
      hstays.parent, hstays.child, hstays.data, hstays.live, congrArg (· + 1) hstays.size⟩
  cases hroot : t.header.parent with
  | none =>
    simp only [insert, hroot, Option.bind_eq_bind, Option.bind_some, Option.some.injEq] at hinsert
    have hnew : ∀ b, some n = some b → S b := fun b hb => Option.some.inj hb ▸ hn
    refine hcount (insertFirst t n) ⟨⟨hnew, fun _ => hnew, fun a ha b hb => ?_, fun a ha s b hb => ?_⟩,
      fun a ha => ?_, fun a ha => ?_, rfl, rfl, rfl⟩ hinsert.symm
    · rw [insertFirst_parent] at hb
      split at hb
      · exact absurd hb (by simp)
      · exact h.parent a ha b hb
    · rw [insertFirst_child] at hb
      split at hb
      · exact absurd hb (by simp)
      · exact h.child a ha s b hb
    · rw [insertFirst_parent, if_neg fun heq : a = n => ha (heq ▸ hn)]
    · rw [insertFirst_child, if_neg fun heq : a = n => ha (heq ▸ hn)]
  | some root =>
    simp only [insert, hroot, Option.bind_eq_bind] at hinsert
    obtain ⟨⟨r, a⟩, hfind, hinsert⟩ := Option.bind_eq_some_iff.mp hinsert
    obtain ⟨t2, hins, hinsert⟩ := Option.bind_eq_some_iff.mp hinsert
    obtain ⟨t3, hleft, hinsert⟩ := Option.bind_eq_some_iff.mp hinsert
    obtain ⟨t4, hright, hinsert⟩ := Option.bind_eq_some_iff.mp hinsert
    obtain ⟨t5, hsplay, hinsert⟩ := Option.bind_eq_some_iff.mp hinsert
    have ha : S a := h.find (h.root root hroot) hfind
    have h2 := StaysIn.insertUnder h ha hn hins
    have h3 := h2.trans (.refreshEnd h2.within hleft)
    have h4 := h3.trans (.refreshEnd h3.within hright)
    exact hcount t5 (h4.trans (.splay h4.within hn hsplay)) (Option.some.inj hinsert).symm

omit [DecidableEq α] in
theorem Contains.within {t : Tree α D} {l : List α} (h : Contains t l) : Within (· ∈ l) t := by
  obtain ⟨sh, hsh, rfl⟩ := h
  have hroot : t.header.parent = sh.root := hsh.zip.around
  -- What a node of the tree is linked to.
  have hlinks : ∀ a ∈ Shape.inorder .left sh, (∀ b, t.parent a = some b → b ∈ Shape.inorder .left sh) ∧
      ∀ s b, t.child a s = some b → b ∈ Shape.inorder .left sh := by
    intro a ha
    obtain ⟨fs, l, r, rfl⟩ := Path.exists_plug ha
    have hzip : t.Zip fs (.node l a r) := zip_plug_iff.mp hsh.zip
    obtain ⟨hpar, hl, hr, -, -⟩ := hzip.holds
    have hmem := fun b => (Path.inorder_plug_perm fs (.node l a r)).mem_iff (a := b)
    refine ⟨fun b hb => ?_, fun s b hb => ?_⟩
    · rw [hpar] at hb
      exact (hmem b).mpr (List.mem_append_right _ (up_mem_nodes hb))
    · refine (hmem b).mpr (List.mem_append_left _ ?_)
      cases s with
      | left =>
        rw [hl] at hb
        exact List.mem_append_left _ (Shape.mem_of_root _ hb)
      | right =>
        rw [hr] at hb
        exact List.mem_append_right _ (List.mem_cons_of_mem _ (Shape.mem_of_root _ hb))
  refine ⟨fun a ha => Shape.mem_of_root _ (hroot.symm.trans ha), fun s a ha => ?_,
    fun a ha => (hlinks a ha).1, fun a ha => (hlinks a ha).2⟩
  rw [hsh.ends] at ha
  exact (Shape.mem_inorder_iff .left s sh a).mpr (List.mem_of_mem_head? ha)

end Hostboot.Util.SplayTree
