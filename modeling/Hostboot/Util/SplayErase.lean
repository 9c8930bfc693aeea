import Hostboot.Util.SplayTree

/-!
# Removing nodes from a splay tree

`remove` takes a node with at most one child out of the tree.  Any other node
it replaces by its successor, which has no left child, and the successor is
splayed up to the root.  The module shows that exactly the node goes and the
others keep their order.
-/

namespace Hostboot.Util.SplayTree

open Hostboot.Lib Hostboot.Lib.LinkedTree Shape Path
open List hiding after

universe u

variable {α D : Type u} [DecidableEq α]

/-! ## The functions of the source -/

/-- `if (header.child[s] == n)`: the first node from side `s` becomes the next
one. -/
def fixEnd (t : Tree α D) (s : Side) (n : α) : Option (Tree α D) :=
  if t.header.child s = some n then (neighbour t s.flip n).map (setEnd t s) else some t

/-- `y`, which has a child at most, leaves its place to that child. -/
def spliceOut (t : Tree α D) (y : α) : Tree α D :=
  let x := (t.child y .left).or (t.child y .right)
  let t := adopt t x (t.parent y)
  relink t (t.parent y) y x

/-- "Replace n with y." -/
def replace (t : Tree α D) (n y : α) : Tree α D :=
  let t := setParent t y (t.parent n)
  let t := relink t (t.parent y) n (some y)
  let t := setChild t y .left (t.child n .left)
  let t := adopt t (t.child y .left) (some y)
  let t := setChild t y .right (t.child n .right)
  adopt t (t.child y .right) (some y)

/-- `(header_n()->data)--`. -/
def decrementSize (t : Tree α D) : Tree α D :=
  { t with header := { t.header with data := t.header.data - 1 } }

/-- The part of `SplayTree::remove` that unlinks `n`. -/
def unlink (t : Tree α D) (n : α) : Option (Tree α D) := do
  -- The node to splice out is n, or its successor when n has two children.
  let y ← if t.child n .left = none ∨ t.child n .right = none then some n else (successor t n).join
  let t := spliceOut t y
  if y = n then some t
  else
    let t := replace t n y
    splay t.fuel t y

def remove (t : Tree α D) (n : α) : Option (Tree α D) := do
  let t ← fixEnd t .left n
  let t ← fixEnd t .right n
  unlink (decrementSize t) n

/-- `delete_functor(n)`. -/
def free (t : Tree α D) (n : α) : Tree α D := { t with live := t.live.erase n }

/-- The loop of `SplayTree::clear`. -/
def clearFrom : Nat → Tree α D → Option α → Option (Tree α D)
  | _, t, none => some t
  | 0, _, some _ => none
  | fuel + 1, t, some n => do
    let next ← successor t n
    let t ← remove t n
    clearFrom fuel (free t n) next

def clear (t : Tree α D) : Option (Tree α D) := clearFrom t.fuel t (t.header.child .left)

/-! ## The parts of `remove` -/

variable {t : Tree α D} {s : Side} {fs : Path α} {l xs ys : List α} {n : α} {sh : Shape α}

theorem spliceOut_spec {x : Shape α} {y : α} (h : t.Zip fs (join s .nil y x)) :
    (spliceOut t y).Zip fs x ∧
      Relinks (inorder .left (plug fs (join s .nil y x))) t (spliceOut t y) := by
  obtain ⟨hpar, hs, hflip, -, hx⟩ := (holds_join _ _ _).mp h.holds
  have hperm := (inorder_plug_perm fs (join s .nil y x)).trans
    ((inorder_join_perm s .nil y x).append_right _)
  have hnodup := ((inorder_join_perm s .nil y x).append_right _).nodup_iff.mp h.nodup
  simp only [inorder_nil, nil_append, cons_append, nodup_cons,
    nodup_append, mem_append, not_or] at hnodup
  obtain ⟨⟨hyx, hyN⟩, hX, hN, hdisj⟩ := hnodup
  have hroot : (t.child y .left).or (t.child y .right) = x.root := by
    cases s with
    | left => simpa [hs] using hflip
    | right => simpa [hs] using hflip
  let t1 := adopt t x.root (up fs)
  have h1 : Around t1.toMem t1.header.parent fs (some y) := by
    have haround := h.around
    rw [root_join] at haround
    rw [show t1.header = t.header from adopt_header _ _ _]
    refine haround.congr (fun a ha => ?_) fun a ha => ?_
    · have hne : x.root ≠ some a := fun heq => hdisj a (mem_of_root _ heq) a ha rfl
      simp [t1, hne]
    · simp [t1]
  have hne : x.root ≠ some y := fun heq => hyx (mem_of_root _ heq)
  have hsplice : spliceOut t y = relink t1 (up fs) y x.root := by
    have hpar1 : t1.parent y = up fs := by simp [t1, hne, hpar]
    simp only [spliceOut, hroot, hpar]
    rw [show (adopt t x.root (up fs)).parent y = up fs from hpar1]
  rw [hsplice]
  refine ⟨⟨around_relink h1 hN hyN, ?_, ?_⟩, ?_⟩
  · refine hx.relink hX (fun a ha => ?_) (fun a ha hax => ?_) fun a ha => ?_
    · simp [t1, ha]
    · simp [t1, hax]
    · have hau : up fs ≠ some a := fun heq => hdisj a ha a (up_mem_nodes heq) rfl
      funext d
      simp [t1, hau]
  · exact nodup_append.mpr ⟨hX, hN, hdisj⟩
  · have hmem : ∀ a, x.root = some a ∨ up fs = some a →
        a ∈ inorder .left (plug fs (join s .nil y x)) := by
      intro a ha
      rw [hperm.mem_iff]
      rcases ha with ha | ha
      · simp [mem_of_root .left ha]
      · simp [up_mem_nodes ha]
    exact (Relinks.adopt (fun a ha => hmem a (.inl ha)) _).trans
      (.relink (fun a ha => hmem a (.inr ha)) _ _)

theorem replace_spec {l r : Shape α} {y : α} (h : t.Zip fs (.node l n r))
    (hy : y ∉ inorder .left (plug fs (.node l n r))) :
    (replace t n y).Zip fs (.node l y r) ∧
      Relinks (y :: inorder .left (plug fs (.node l n r))) t (replace t n y) := by
  obtain ⟨hpar, hcl, hcr, hl, hr⟩ := h.holds
  have hperm := (inorder_plug_perm fs (.node l n r)).trans
    ((inorder_join_perm .left l n r).append_right _)
  have hnodup := ((inorder_join_perm .left l n r).append_right _).nodup_iff.mp h.nodup
  rw [hperm.mem_iff] at hy
  simp only [cons_append, nodup_cons, nodup_append, mem_append,
    mem_cons, not_or] at hnodup hy
  obtain ⟨⟨⟨hnl, hnr⟩, hnN⟩, ⟨hL, hR, hLR⟩, hN, hdisj⟩ := hnodup
  obtain ⟨hyn, ⟨hyl, hyr⟩, hyN⟩ := hy
  have hlN : ∀ a, l.root = some a → a ∉ nodes fs := fun a ha hmem =>
    hdisj a (.inl (mem_of_root _ ha)) a hmem rfl
  have hrN : ∀ a, r.root = some a → a ∉ nodes fs := fun a ha hmem =>
    hdisj a (.inr (mem_of_root _ ha)) a hmem rfl
  have hlrne : ∀ a, l.root = some a → r.root ≠ some a := fun a ha hra =>
    hLR a (mem_of_root _ ha) a (mem_of_root _ hra) rfl
  have hlne : l.root ≠ some y := fun heq => hyl (mem_of_root _ heq)
  have hrne : r.root ≠ some y := fun heq => hyr (mem_of_root _ heq)
  have hupn : up fs ≠ some n := fun heq => hnN (up_mem_nodes heq)
  let t1 := setParent t y (up fs)
  have h1 : Around t1.toMem t1.header.parent fs (some n) := by
    refine h.around.congr (fun a ha => ?_) fun a _ => rfl
    have hne : a ≠ y := fun heq => hyN (heq ▸ ha)
    simp [t1, hne]
  let t2 := relink t1 (up fs) n (some y)
  have h2 : Around t2.toMem t2.header.parent fs (some y) := around_relink h1 hN hnN
  let t3 := adopt (setChild t2 y .left l.root) l.root (some y)
  let t4 := adopt (setChild t3 y .right r.root) r.root (some y)
  have hreplace : replace t n y = t4 := by
    simp [replace, hpar, hcl, hcr, hupn, Ne.symm hyn, t4, t3, t2, t1]
  rw [hreplace]
  have hheader : t4.header = t2.header := by simp [t4, t3]
  have hparent : ∀ a, t4.parent a = if r.root = some a then some y else if l.root = some a then
      some y else if a = y then up fs else t.parent a := by
    intro a
    simp [t4, t3, t2, t1]
  have hchild : ∀ a, up fs ≠ some a → a ≠ y → t4.child a = t.child a := by
    intro a hau hay
    funext d
    simp [t4, t3, t2, t1, hau, hay]
  refine ⟨⟨?_, ⟨?_, ?_, ?_, ?_, ?_⟩, ?_⟩, ?_⟩
  · rw [hheader]
    refine h2.congr (fun a ha => ?_) fun a ha => ?_
    · have hl' : l.root ≠ some a := fun heq => hlN a heq ha
      have hr' : r.root ≠ some a := fun heq => hrN a heq ha
      simp [t4, t3, hl', hr']
    · have hne : a ≠ y := fun heq => hyN (heq ▸ ha)
      funext d
      simp [t4, t3, hne]
  · rw [hparent, if_neg hrne, if_neg hlne, if_pos rfl]
  · simp [t4, t3]
  · simp [t4]
  · refine hl.relink hL (fun a ha => ?_) (fun a ha hal => ?_) fun a ha => ?_
    · rw [hparent, if_neg (hlrne a ha), if_pos ha]
    · have hra : r.root ≠ some a := fun heq => hLR a ha a (mem_of_root _ heq) rfl
      have hne : a ≠ y := fun heq => hyl (heq ▸ ha)
      rw [hparent, if_neg hra, if_neg hal, if_neg hne]
    · exact hchild a (fun heq => hdisj a (.inl ha) a (up_mem_nodes heq) rfl)
        fun heq => hyl (heq ▸ ha)
  · refine hr.relink hR (fun a ha => ?_) (fun a ha har => ?_) fun a ha => ?_
    · rw [hparent, if_pos ha]
    · have hla : l.root ≠ some a := fun heq => hLR a (mem_of_root _ heq) a ha rfl
      have hne : a ≠ y := fun heq => hyr (heq ▸ ha)
      rw [hparent, if_neg har, if_neg hla, if_neg hne]
    · exact hchild a (fun heq => hdisj a (.inr ha) a (up_mem_nodes heq) rfl)
        fun heq => hyr (heq ▸ ha)
  · refine ((inorder_join_perm .left l y r).append_right _).nodup_iff.mpr ?_
    simp only [cons_append, nodup_cons, nodup_append, mem_append, not_or]
    exact ⟨⟨⟨hyl, hyr⟩, hyN⟩, ⟨hL, hR, hLR⟩, hN, hdisj⟩
  · have hmem : ∀ a, l.root = some a ∨ r.root = some a ∨ up fs = some a →
        a ∈ y :: inorder .left (plug fs (.node l n r)) := by
      intro a ha
      rw [mem_cons, hperm.mem_iff]
      rcases ha with ha | ha | ha
      · simp [mem_of_root .left ha]
      · simp [mem_of_root .left ha]
      · simp [up_mem_nodes ha]
    exact ((((Relinks.setParent mem_cons_self _).trans
      (.relink (fun a ha => hmem a (.inr (.inr ha))) _ _)).trans
      (.setChild mem_cons_self _ _)).trans
      (.adopt (fun a ha => hmem a (.inl ha)) _)).trans
      ((Relinks.setChild mem_cons_self _ _).trans
      (.adopt (fun a ha => hmem a (.inr (.inl ha))) _))

omit [DecidableEq α] in
theorem inorder_plug_erase {x : Shape α}
    (hnodup : (inorder .left (plug fs (join s .nil n x))).Nodup)
    (hsplit : inorder .left (plug fs (join s .nil n x)) = xs ++ n :: ys) :
    inorder .left (plug fs x) = xs ++ ys := by
  rw [hsplit] at hnodup
  have hx : ∃ us vs, inorder .left (join s .nil n x) = us ++ n :: vs ∧
      inorder .left x = us ++ vs := by
    cases s with
    | left => exact ⟨[], inorder .left x, rfl, rfl⟩
    | right => exact ⟨inorder .left x, [], rfl, (append_nil _).symm⟩
  obtain ⟨us, vs, hj, hx⟩ := hx
  rw [inorder_plug, hj] at hsplit
  have hsplit' : xs ++ n :: ys = (before .left fs ++ us) ++ n :: (vs ++ after .left fs) := by
    rw [← hsplit]
    simp
  obtain ⟨rfl, rfl⟩ := split_unique hsplit' hnodup
  rw [inorder_plug, hx]
  simp

theorem fixEnd_spec (h : t.Holds sh) (hend : t.header.child s = (inorder s sh).head?)
    (hsplit : inorder s sh = xs ++ n :: ys) :
    fixEnd t s n = some (setEnd t s (xs ++ ys).head?) := by
  have hnodup : (xs ++ n :: ys).Nodup := hsplit ▸ (inorder_perm s sh).nodup_iff.mpr h.nodup
  rw [hsplit] at hend
  cases xs with
  | nil =>
    have hneigh : neighbour t s.flip n = some ys.head? :=
      neighbour_spec h (by rw [Side.flip_flip]; exact hsplit)
    have hend' : t.header.child s = some n := hend
    rw [fixEnd, if_pos hend', hneigh]
    rfl
  | cons a xs =>
    have hne : a ≠ n := fun heq => by
      rw [heq] at hnodup
      exact (nodup_cons.mp hnodup).1 (mem_append_right _ mem_cons_self)
    have hend' : t.header.child s = some a := hend
    rw [fixEnd, if_neg (by rw [hend']; simpa using hne)]
    have hupdate : Function.update t.header.child s (some a) = t.header.child := by
      rw [← hend']
      exact Function.update_eq_self s _
    show some t = some { t with header := { t.header with child := _ } }
    rw [show ((a :: xs) ++ ys).head? = some a from rfl, hupdate]

theorem unlink_spec (h : t.Holds sh) (hsplit : inorder .left sh = xs ++ n :: ys) :
    ∃ t' sh', unlink t n = some t' ∧ t'.Zip [] sh' ∧ inorder .left sh' = xs ++ ys ∧
      Relinks (inorder .left sh) t t' := by
  have hn : n ∈ inorder .left sh := hsplit ▸ mem_append_right _ mem_cons_self
  obtain ⟨fs, l, r, rfl⟩ := exists_plug hn
  have hzip : t.Zip fs (.node l n r) := zip_plug_iff.mp h.zip
  obtain ⟨-, hl, hr, -, -⟩ := hzip.holds
  have hone : ∀ s x, Shape.node l n r = join s .nil n x →
      (t.child n .left = none ∨ t.child n .right = none) →
      ∃ t' sh', unlink t n = some t' ∧ t'.Zip [] sh' ∧ inorder .left sh' = xs ++ ys ∧
        Relinks (inorder .left (plug fs (.node l n r))) t t' := by
    intro s x hjoin hnone
    have hnodup := h.nodup
    rw [hjoin] at hzip hsplit hnodup ⊢
    obtain ⟨hsplice, hrel⟩ := spliceOut_spec hzip
    refine ⟨spliceOut t n, plug fs x, ?_, zip_plug_iff.mpr hsplice,
      inorder_plug_erase hnodup hsplit, hrel⟩
    simp [unlink, hnone]
  cases hlroot : l.root with
  | none => exact hone .left r (by rw [eq_nil_of_root hlroot]; rfl) (.inl (hl.trans hlroot))
  | some a =>
    cases hrroot : r.root with
    | none => exact hone .right l (by rw [eq_nil_of_root hrroot]; rfl) (.inr (hr.trans hrroot))
    | some b =>
      have hO : inorder .left (plug fs (.node l n r)) =
          (before .left fs ++ inorder .left l) ++ n :: (inorder .left r ++ after .left fs) := by
        rw [inorder_plug, inorder]
        simp
      obtain ⟨rfl, rfl⟩ : xs = before .left fs ++ inorder .left l ∧
          ys = inorder .left r ++ after .left fs :=
        split_unique (hsplit.symm.trans hO) (hsplit ▸ h.nodup)
      -- The successor is the first node of the right subtree.
      obtain ⟨y, zs, hyr⟩ : ∃ y zs, inorder .left r = y :: zs :=
        exists_cons_of_ne_nil (ne_nil_of_mem (mem_of_root _ hrroot))
      have hsucc : successor t n = some (some y) := by
        have hneigh := neighbour_spec (d := .right) h hsplit
        rw [hyr] at hneigh
        exact hneigh
      have hnodupr : (inorder .left r).Nodup := by
        have hnodup := hsplit ▸ h.nodup
        exact (nodup_append.mp
          (nodup_cons.mp (nodup_append.mp hnodup).2.1).2).1
      obtain ⟨gs, ly, ry, rfl⟩ := exists_plug (hyr ▸ mem_cons_self : y ∈ inorder .left r)
      obtain rfl : ly = .nil := by
        have hgs : (before .left gs ++ inorder .left ly) ++ y :: (inorder .left ry ++ after .left gs)
            = [] ++ y :: zs := by
          rw [nil_append, ← hyr, inorder_plug, inorder]
          simp
        have hnil := (split_unique hgs (by rw [hgs, nil_append, ← hyr]; exact hnodupr)).1
        cases hroot : ly.root with
        | none => exact eq_nil_of_root hroot
        | some c =>
          have hmem := mem_of_root .left hroot
          rw [(append_eq_nil_iff.mp hnil).2] at hmem
          exact absurd hmem not_mem_nil
      have hzs : inorder .left (plug gs ry) = zs :=
        inorder_plug_erase (show (inorder .left (plug gs (join .left .nil y ry))).Nodup from hnodupr)
          (show _ = [] ++ y :: zs from hyr)
      have hzipy : t.Zip (gs ++ ⟨.right, n, l⟩ :: fs) (join .left .nil y ry) :=
        zip_append_iff.mpr ((zip_cons_iff _).mpr hzip)
      obtain ⟨hsplice, hrel1⟩ := spliceOut_spec hzipy
      have hzip1 : (spliceOut t y).Zip fs (.node l n (plug gs ry)) :=
        (zip_cons_iff ⟨.right, n, l⟩).mp (zip_append_iff.mp hsplice)
      have hO1 : inorder .left (plug fs (.node l n (plug gs ry))) =
          (before .left fs ++ inorder .left l) ++ n :: (zs ++ after .left fs) := by
        rw [inorder_plug, inorder, hzs]
        simp
      have hnodup : ((before .left fs ++ inorder .left l) ++
          n :: y :: (zs ++ after .left fs)).Nodup := by
        have hnodup := hsplit ▸ h.nodup
        rw [hyr] at hnodup
        exact hnodup
      have hyout : y ≠ n ∧ y ∉ inorder .left (plug fs (.node l n (plug gs ry))) := by
        rw [hO1]
        obtain ⟨-, hcons, hdisj⟩ := nodup_append.mp hnodup
        obtain ⟨hn', hcons⟩ := nodup_cons.mp hcons
        have hyn : y ≠ n := fun heq => hn' (heq ▸ mem_cons_self)
        refine ⟨hyn, fun hmem => ?_⟩
        rcases mem_append.mp hmem with hmem | hmem
        · exact hdisj y hmem y (mem_cons_of_mem _ mem_cons_self) rfl
        · rcases mem_cons.mp hmem with heq | hmem
          · exact hyn heq
          · exact (nodup_cons.mp hcons).1 hmem
      obtain ⟨hzip2, hrel2⟩ := replace_spec hzip1 hyout.2
      have hfuel : fs.length < (replace (spliceOut t y) n y).fuel := by
        have hlt := h.plug_lt_fuel
        rw [Tree.fuel, hrel2.live, hrel1.live]
        rw [Tree.fuel] at hlt
        omega
      obtain ⟨t', l', r', hsplay, hzip', horder, hrel3⟩ := splay_spec hzip2 hfuel
      have hO2 : inorder .left (plug fs (.node l y (plug gs ry))) =
          (before .left fs ++ inorder .left l) ++ y :: (zs ++ after .left fs) := by
        rw [inorder_plug, inorder, hzs]
        simp
      refine ⟨t', .node l' y r', ?_, hzip', ?_, ?_⟩
      · have htwo : ¬(t.child n .left = none ∨ t.child n .right = none) := by
          rw [hl, hr, hlroot, hrroot]
          simp
        simp only [unlink, htwo, if_false, hsucc, Option.join_some, Option.bind_eq_bind,
          Option.bind_some, hyout.1, hsplay]
      · rw [horder, hO2, hyr]
        rfl
      · have hmem : ∀ a, a = y ∨ a ∈ (before .left fs ++ inorder .left l) ++
            n :: (zs ++ after .left fs) →
            a ∈ inorder .left (plug fs (.node l n (plug gs (.node .nil y ry)))) := by
          intro a ha
          rw [hsplit, hyr]
          simp only [mem_append, mem_cons] at ha ⊢
          tauto
        refine Relinks.trans (hrel1.mono fun a ha => ?_)
          ((hrel2.mono fun a ha => ?_).trans (hrel3.mono fun a ha => ?_))
        · rw [plug_append] at ha
          exact ha
        · rw [hO1] at ha
          exact hmem a (mem_cons.mp ha)
        · rw [hO2] at ha
          refine hmem a ?_
          simp only [mem_append, mem_cons] at ha ⊢
          tauto

/-- `remove` takes exactly `n` out of the tree, and the header points to the
first and to the last of the other nodes. -/
theorem remove_spec (h : Represents t sh) (hsplit : inorder .left sh = xs ++ n :: ys) :
    ∃ t' sh', remove t n = some t' ∧ Represents t' sh' ∧ inorder .left sh' = xs ++ ys ∧
      t'.data = t.data ∧ t'.live = t.live ∧ Touches (inorder .left sh) t t' := by
  have hsplit' : inorder .right sh = ys.reverse ++ n :: xs.reverse := by
    rw [show Side.right = Side.left.flip from rfl, inorder_flip, hsplit]
    simp
  let t1 := setEnd t .left (xs ++ ys).head?
  have h1 : fixEnd t .left n = some t1 := fixEnd_spec h.toHolds (h.ends .left) hsplit
  let t2 := setEnd t1 .right (ys.reverse ++ xs.reverse).head?
  have h2 : fixEnd t1 .right n = some t2 := by
    refine fixEnd_spec ⟨h.zip, h.live⟩ ?_ hsplit'
    exact h.ends .right
  obtain ⟨t', sh', hunlink, hzip, horder, hrel⟩ :=
    unlink_spec (t := decrementSize t2) ⟨h.zip, h.live⟩ hsplit
  refine ⟨t', sh', ?_, ⟨⟨hzip, fun a ha => ?_⟩, fun s => ?_, ?_⟩, horder, hrel.data,
    hrel.live, ⟨hrel.parent, hrel.child, fun a _ => congrFun hrel.data a, fun a _ => ?_⟩⟩
  · simp only [remove, h1, h2, Option.bind_eq_bind, Option.bind_some]
    exact hunlink
  · rw [horder] at ha
    rw [hrel.live]
    refine h.live a ?_
    rw [hsplit]
    simp only [mem_append, mem_cons] at ha ⊢
    tauto
  · rw [hrel.ends]
    cases s with
    | left =>
      rw [horder]
      rfl
    | right =>
      rw [show Side.right = Side.left.flip from rfl, inorder_flip, horder, reverse_append]
      rfl
  · rw [hrel.size, horder]
    show t.header.data - 1 = _
    rw [h.size, hsplit]
    simp only [length_append, length_cons]
    omega
  · rw [hrel.live]
    exact Iff.rfl

/-! ## Erasing and clearing -/

theorem Contains.free (h : Contains t l) (hn : n ∉ l) :
    Contains (free t n) l := by
  refine h.of_touches (k := [n]) ⟨fun _ _ => rfl, fun _ _ => rfl, fun _ _ => rfl, ?_⟩ rfl ?_
  · intro a ha
    exact mem_erase_of_ne (by simpa using ha)
  · intro a ha hmem
    rw [mem_singleton.mp hmem] at ha
    exact hn ha

theorem Contains.remove (h : Contains t (xs ++ n :: ys)) :
    ∃ t', remove t n = some t' ∧ Contains (SplayTree.free t' n) (xs ++ ys) ∧
      t'.data = t.data ∧ t'.live = t.live ∧
      Touches (xs ++ n :: ys) t (SplayTree.free t' n) := by
  have hnodup := h.nodup
  obtain ⟨sh, hsh, hl⟩ := h
  obtain ⟨t', sh', hremove, hsh', hl', hdata, hlive, htouch⟩ := remove_spec hsh hl
  have hn : n ∉ xs ++ ys := by
    obtain ⟨-, hcons, hdisj⟩ := nodup_append.mp hnodup
    intro hmem
    rcases mem_append.mp hmem with hmem | hmem
    · exact hdisj n hmem n mem_cons_self rfl
    · exact (nodup_cons.mp hcons).1 hmem
  have hcontains : Contains t' (xs ++ ys) := ⟨sh', hsh', hl'⟩
  rw [hl] at htouch
  refine ⟨t', hremove, hcontains.free hn, hdata, hlive, htouch.parent, htouch.child,
    htouch.data, fun a ha => ?_⟩
  rw [← htouch.live a ha]
  refine mem_erase_of_ne fun heq => ha ?_
  rw [heq]
  exact mem_append_right _ mem_cons_self

theorem clearFrom_spec {fuel : Nat} (h : Contains t l) (hfuel : l.length ≤ fuel) :
    ∃ t', clearFrom fuel t l.head? = some t' ∧ Contains t' [] ∧ Touches l t t' ∧
      t'.data = t.data := by
  induction l generalizing fuel t with
  | nil => exact ⟨t, by cases fuel <;> rfl, h, .refl _ t, rfl⟩
  | cons n ys ih =>
    cases fuel with
    | zero => exact absurd hfuel (Nat.not_succ_le_zero _)
    | succ fuel =>
      have hfront : Contains t ([] ++ n :: ys) := h
      obtain ⟨t1, hremove, hcontains, hdata, -, htouch⟩ := hfront.remove
      obtain ⟨t', hclear, hempty, htouch', hdata'⟩ := ih hcontains (Nat.le_of_succ_le_succ hfuel)
      refine ⟨t', ?_, hempty, htouch.trans (htouch'.mono fun a ha => mem_cons_of_mem _ ha),
        hdata'.trans hdata⟩
      have hsucc : successor t n = some ys.head? := 
        Contains.successor (show Contains t ([] ++ n :: ys) from h)
      simp only [head?_cons, clearFrom, hsucc, hremove, Option.bind_eq_bind,
        Option.bind_some]
      exact hclear

theorem Contains.clear (h : Contains t l) :
    ∃ t', SplayTree.clear t = some t' ∧ Contains t' [] ∧ Touches l t t' ∧ t'.data = t.data := by
  have hspec := clearFrom_spec h (Nat.le_of_lt h.length_lt_fuel)
  rw [← h.first] at hspec
  exact hspec

end Hostboot.Util.SplayTree
