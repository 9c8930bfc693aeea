import Hostboot.Lib.LinkedTree
import Mathlib.Tactic.Common

/-!
# The splay tree behind `std::map`

`src/lib/splaytree.C` keeps the nodes of a map in a binary search tree whose
nodes hold pointers to their parent and children.  One more node, `header`,
points to the root, to the first and to the last node, and keeps the size.
Almost every operation ends in a splay, which rotates the node it was about up
to the root.

A null pointer is `none`.  A function that reads through a null pointer has no
result, and neither has a loop along links that takes more steps than there are
nodes in use: it goes round in a circle.  The lock of a tree and the functors
that it keeps are left out.
-/

namespace Hostboot.Util.SplayTree

open Hostboot.Lib Hostboot.Lib.LinkedTree Shape Path
open List hiding after

universe u

/-! ## The functions of the source -/

/-- The node `header` of a tree: its parent is the root, its children are the
first and the last node, and its data is the size. -/
structure Header (α : Type u) where
  parent : Option α
  child : Side → Option α
  data : Nat

/-- The nodes in memory, and the header of one tree.  `live` has the addresses
in use. -/
structure Tree (α D : Type u) extends Mem α where
  data : α → D
  live : List α
  header : Header α

variable {α D : Type u} [DecidableEq α]

/-- `header` before the first node is inserted. -/
def Header.empty : Header α := ⟨none, fun _ => none, 0⟩

/-- `a->parent = p`. -/
def setParent (t : Tree α D) (a : α) (p : Option α) : Tree α D :=
  { t with parent := Function.update t.parent a p }

/-- `a->child[s] = c`. -/
def setChild (t : Tree α D) (a : α) (s : Side) (c : Option α) : Tree α D :=
  { t with child := Function.update t.child a (Function.update (t.child a) s c) }

/-- `if (NULL != c) c->parent = p`. -/
def adopt (t : Tree α D) (c : Option α) (p : Option α) : Tree α D :=
  match c with
  | none => t
  | some c => setParent t c p

/-- `header.parent = r`. -/
def setRoot (t : Tree α D) (r : Option α) : Tree α D :=
  { t with header := { t.header with parent := r } }

/-- `header.child[s] = c`. -/
def setEnd (t : Tree α D) (s : Side) (c : Option α) : Tree α D :=
  { t with header := { t.header with child := Function.update t.header.child s c } }

/-- A number of steps that no walk along the links of a tree needs. -/
def Tree.fuel (t : Tree α D) : Nat := t.live.length + 1

def direction (t : Tree α D) (p c : α) : Side :=
  if t.child p .left = some c then .left else .right

/-- The link that leads down to `old`, from its parent `up` or from the header,
leads to `c`. -/
def relink (t : Tree α D) (up : Option α) (old : α) (c : Option α) : Tree α D :=
  match up with
  | none => setRoot t c
  | some g => setChild t g (direction t g old) c

/-- The walk of `leftmost` and `rightmost`. -/
def farthest (t : Tree α D) (s : Side) : Nat → α → Option α
  | 0, _ => none
  | fuel + 1, n =>
    match t.child n s with
    | some c => farthest t s fuel c
    | none => some n

def leftmost (t : Tree α D) (n : α) : Option α := farthest t .left t.fuel n

def rightmost (t : Tree α D) (n : α) : Option α := farthest t .right t.fuel n

/-- The walk up from `n` to the first node that it is not below on side `d`;
`y` is the parent of `n`. -/
def climb (t : Tree α D) (d : Side) : Nat → α → Option α → Option (Option α)
  | _, _, none => some none
  | 0, _, some _ => none
  | fuel + 1, n, some y =>
    if t.child y d = some n then climb t d fuel y (t.parent y) else some (some y)

/-- The next node on side `d`. -/
def neighbour (t : Tree α D) (d : Side) (n : α) : Option (Option α) :=
  match t.child n d with
  | some c => (farthest t d.flip t.fuel c).map some
  | none => climb t d t.fuel n (t.parent n)

def predecessor (t : Tree α D) (n : α) : Option (Option α) := neighbour t .left n

def successor (t : Tree α D) (n : α) : Option (Option α) := neighbour t .right n

def rotate (t : Tree α D) (n : α) (d : Side) : Option (Tree α D) := do
  let p ← t.parent n
  let x := t.child n d
  -- Link the subtree of n on side d into p.
  let t := setChild t p d.flip x
  let t := adopt t x (some p)
  -- Link the parent of p to n.
  let up := t.parent p
  let t := setParent t n up
  let t := relink t up p (some n)
  -- Put p onto side d of n.
  let t := setParent t p (some n)
  some (setChild t n d (some p))

/-- `rotate(n, !direction(n->parent, n))`. -/
def rotateUp (t : Tree α D) (n : α) : Option (Tree α D) := do
  let p ← t.parent n
  rotate t n (direction t p n).flip

def splay : Nat → Tree α D → α → Option (Tree α D)
  | 0, _, _ => none
  | fuel + 1, t, n =>
    match t.parent n with
    | none => some t
    | some p =>
      match t.parent p with
      | none => rotateUp t n
      | some g =>
        if direction t p n = direction t g p then do
          let t ← rotateUp t p
          let t ← rotateUp t n
          splay fuel t n
        else do
          let t ← rotateUp t n
          let t ← rotateUp t n
          splay fuel t n

/-! ## The steps that relink nodes -/

@[simp] theorem setParent_parent (t : Tree α D) (a b : α) (p : Option α) :
    (setParent t a p).parent b = if b = a then p else t.parent b :=
  Function.update_apply _ _ _ _

@[simp] theorem setParent_child (t : Tree α D) (a : α) (p : Option α) :
    (setParent t a p).child = t.child := rfl

@[simp] theorem setParent_header (t : Tree α D) (a : α) (p : Option α) :
    (setParent t a p).header = t.header := rfl

@[simp] theorem setChild_parent (t : Tree α D) (a : α) (s : Side) (c : Option α) :
    (setChild t a s c).parent = t.parent := rfl

@[simp] theorem setChild_child (t : Tree α D) (a b : α) (s d : Side) (c : Option α) :
    (setChild t a s c).child b d = if b = a ∧ d = s then c else t.child b d := by
  by_cases hb : b = a
  · subst hb
    simp [setChild, Function.update_apply]
  · simp [setChild, hb]

@[simp] theorem setChild_header (t : Tree α D) (a : α) (s : Side) (c : Option α) :
    (setChild t a s c).header = t.header := rfl

@[simp] theorem adopt_parent (t : Tree α D) (c : Option α) (p : Option α) (b : α) :
    (adopt t c p).parent b = if c = some b then p else t.parent b := by
  cases c with
  | none => simp [adopt]
  | some c => simp [adopt, eq_comm]

@[simp] theorem adopt_child (t : Tree α D) (c : Option α) (p : Option α) :
    (adopt t c p).child = t.child := by cases c <;> rfl

@[simp] theorem adopt_header (t : Tree α D) (c : Option α) (p : Option α) :
    (adopt t c p).header = t.header := by cases c <;> rfl

@[simp] theorem relink_parent (t : Tree α D) (up : Option α) (old : α) (c : Option α) :
    (relink t up old c).parent = t.parent := by cases up <;> rfl

@[simp] theorem relink_child (t : Tree α D) (up : Option α) (old : α) (c : Option α) (b : α)
    (d : Side) :
    (relink t up old c).child b d =
      if up = some b ∧ d = direction t b old then c else t.child b d := by
  cases up with
  | none => simp [relink, setRoot]
  | some g =>
    by_cases hb : b = g
    · subst hb
      simp [relink]
    · simp [relink, hb, Ne.symm hb]

theorem relink_root (t : Tree α D) (up : Option α) (old : α) (c : Option α) :
    (relink t up old c).header.parent = if up = none then c else t.header.parent := by
  cases up <;> rfl

/-- Only the header and what belongs to the addresses `l` may differ. -/
structure Touches (l : List α) (t t' : Tree α D) : Prop where
  parent : ∀ a ∉ l, t'.parent a = t.parent a
  child : ∀ a ∉ l, t'.child a = t.child a
  data : ∀ a ∉ l, t'.data a = t.data a
  live : ∀ a ∉ l, a ∈ t'.live ↔ a ∈ t.live

namespace Touches

variable {l : List α} {t t1 t2 : Tree α D}

omit [DecidableEq α] in
theorem refl (l : List α) (t : Tree α D) : Touches l t t :=
  ⟨fun _ _ => rfl, fun _ _ => rfl, fun _ _ => rfl, fun _ _ => Iff.rfl⟩

omit [DecidableEq α] in
theorem trans (h1 : Touches l t t1) (h2 : Touches l t1 t2) : Touches l t t2 where
  parent a ha := (h2.parent a ha).trans (h1.parent a ha)
  child a ha := (h2.child a ha).trans (h1.child a ha)
  data a ha := (h2.data a ha).trans (h1.data a ha)
  live a ha := (h2.live a ha).trans (h1.live a ha)

omit [DecidableEq α] in
theorem mono {l' : List α} (h : Touches l t t1) (hsub : ∀ a ∈ l, a ∈ l') : Touches l' t t1 where
  parent a ha := h.parent a fun hl => ha (hsub a hl)
  child a ha := h.child a fun hl => ha (hsub a hl)
  data a ha := h.data a fun hl => ha (hsub a hl)
  live a ha := h.live a fun hl => ha (hsub a hl)

end Touches

/-- What relinking within the nodes `l` leaves alone: everything but their
links and the root. -/
structure Relinks (l : List α) (t t' : Tree α D) : Prop where
  parent : ∀ a ∉ l, t'.parent a = t.parent a
  child : ∀ a ∉ l, t'.child a = t.child a
  data : t'.data = t.data
  live : t'.live = t.live
  ends : t'.header.child = t.header.child
  size : t'.header.data = t.header.data

namespace Relinks

variable {l : List α} {t t1 t2 : Tree α D}

omit [DecidableEq α] in
theorem touches (h : Relinks l t t1) : Touches l t t1 where
  parent := h.parent
  child := h.child
  data a _ := congrFun h.data a
  live a _ := by rw [h.live]

omit [DecidableEq α] in
theorem refl (l : List α) (t : Tree α D) : Relinks l t t :=
  ⟨fun _ _ => rfl, fun _ _ => rfl, rfl, rfl, rfl, rfl⟩

omit [DecidableEq α] in
theorem trans (h1 : Relinks l t t1) (h2 : Relinks l t1 t2) : Relinks l t t2 where
  parent a ha := (h2.parent a ha).trans (h1.parent a ha)
  child a ha := (h2.child a ha).trans (h1.child a ha)
  data := h2.data.trans h1.data
  live := h2.live.trans h1.live
  ends := h2.ends.trans h1.ends
  size := h2.size.trans h1.size

omit [DecidableEq α] in
theorem mono {l' : List α} (h : Relinks l t t1) (hsub : ∀ a ∈ l, a ∈ l') : Relinks l' t t1 where
  parent a ha := h.parent a fun hl => ha (hsub a hl)
  child a ha := h.child a fun hl => ha (hsub a hl)
  data := h.data
  live := h.live
  ends := h.ends
  size := h.size

theorem setParent {a : α} (ha : a ∈ l) (p : Option α) : Relinks l t (setParent t a p) where
  parent b hb := by
    rw [setParent_parent, if_neg (fun h : b = a => hb (h ▸ ha))]
  child _ _ := rfl
  data := rfl
  live := rfl
  ends := rfl
  size := rfl

theorem setChild {a : α} (ha : a ∈ l) (s : Side) (c : Option α) :
    Relinks l t (setChild t a s c) where
  parent _ _ := rfl
  child b hb := by
    funext d
    rw [setChild_child, if_neg (fun h : b = a ∧ d = s => hb (h.1 ▸ ha))]
  data := rfl
  live := rfl
  ends := rfl
  size := rfl

theorem adopt {c : Option α} (hc : ∀ a, c = some a → a ∈ l) (p : Option α) :
    Relinks l t (adopt t c p) := by
  cases c with
  | none => exact refl l t
  | some c => exact setParent (hc c rfl) p

theorem relink {up : Option α} (hup : ∀ a, up = some a → a ∈ l) (old : α) (c : Option α) :
    Relinks l t (relink t up old c) := by
  cases up with
  | none => exact ⟨fun _ _ => rfl, fun _ _ => rfl, rfl, rfl, rfl, rfl⟩
  | some g => exact setChild (hup g rfl) _ c

end Relinks

/-! ## Rotations and the splay -/

/-- The memory holds the tree `plug fs sh`. -/
abbrev Tree.Zip (t : Tree α D) (fs : Path α) (sh : Shape α) : Prop :=
  LinkedTree.Zip t.toMem t.header.parent fs sh

variable {fs : Path α} {f : Frame α} {fuel : Nat}

omit [DecidableEq α] in
theorem up_mem_nodes {a : α} (h : up fs = some a) : a ∈ nodes fs := by
  cases fs with
  | nil => exact absurd h (by simp)
  | cons f fs =>
    obtain rfl := Option.some.inj h
    exact mem_cons_self

theorem direction_eq {t : Tree α D} {n : α} (h : Around t.toMem t.header.parent (f :: fs) (some n))
    (hn : n ∉ nodes (f :: fs)) :
    direction t f.node n = f.side := by
  obtain ⟨-, hside, hflip, -, -⟩ := h
  have hne : f.other.root ≠ some n := fun heq =>
    hn (mem_cons_of_mem _ (mem_append_left _ (mem_of_root _ heq)))
  rw [direction]
  cases hs : f.side with
  | left =>
    rw [hs] at hside
    rw [if_pos hside]
  | right =>
    rw [hs] at hflip
    rw [if_neg]
    intro heq
    exact hne (hflip.symm.trans heq)

theorem around_relink {t : Tree α D} {old : α} {c : Option α}
    (h : Around t.toMem t.header.parent fs (some old)) (hnodup : (nodes fs).Nodup)
    (hold : old ∉ nodes fs) :
    Around (relink t (up fs) old c).toMem (relink t (up fs) old c).header.parent fs c := by
  cases fs with
  | nil => rfl
  | cons f fs =>
    have hdir : direction t f.node old = f.side := direction_eq h hold
    obtain ⟨hpar, hside, hflip, hother, hup⟩ := h
    obtain ⟨hnot, -⟩ := nodup_cons.mp hnodup
    have hchild : ∀ a ∈ inorder .left f.other ++ nodes fs,
        (relink t (up (f :: fs)) old c).child a = t.child a := by
      intro a ha
      funext d
      have hne : f.node ≠ a := fun heq => hnot (heq ▸ ha)
      simp [hne]
    have hnode : ∀ d, (relink t (up (f :: fs)) old c).child f.node d =
        if d = f.side then c else t.child f.node d := by
      intro d
      simp [hdir]
    refine ⟨?_, ?_, ?_, ?_, ?_⟩
    · rw [relink_parent]
      exact hpar
    · rw [hnode, if_pos rfl]
    · rw [hnode, if_neg (Side.flip_ne _)]
      exact hflip
    · refine hother.congr (fun a _ => ?_) fun a ha => hchild a (mem_append_left _ ha)
      rw [relink_parent]
    · rw [relink_root, if_neg (by simp)]
      refine hup.congr (fun a _ => ?_) fun a ha => hchild a (mem_append_right _ ha)
      rw [relink_parent]

/-- A rotation moves a node above its parent.  The nodes keep their order. -/
theorem rotate_spec {t : Tree α D} {s : Side} {n p : α} {x y sib : Shape α}
    (h : t.Zip (⟨s, p, sib⟩ :: fs) (join s y n x)) :
    ∃ t', rotate t n s.flip = some t' ∧ t'.Zip fs (join s y n (join s x p sib)) ∧
      Relinks (inorder .left (plug (⟨s, p, sib⟩ :: fs) (join s y n x))) t t' := by
  have hperm := (inorder_plug_perm (⟨s, p, sib⟩ :: fs) (join s y n x)).trans
    ((inorder_join_perm s y n x).append_right _)
  have hnodup := ((inorder_join_perm s y n x).append_right _).nodup_iff.mp h.nodup
  obtain ⟨hpup, hpn, hpsib, hsib, hup⟩ := h.around
  obtain ⟨hnp, hny, hnx, hy, hx⟩ := (holds_join _ _ _).mp h.holds
  dsimp only at hpup hpn hpsib hsib hup
  have hp : t.parent n = some p := hnp
  simp only [nodes, cons_append, nodup_cons, nodup_append, mem_append,
    mem_cons, not_or] at hnodup
  obtain ⟨⟨⟨hnY, hnX⟩, hne, hnS, hnN⟩, ⟨hY, hX, hYX⟩, ⟨⟨hpS, hpN⟩, hS, hN, hSN⟩, hout⟩ := hnodup
  -- The nodes above have links of their own.
  have hfs : ∀ a ∈ nodes fs, a ≠ p ∧ a ≠ n ∧ x.root ≠ some a := fun a ha =>
    ⟨fun heq => hpN (heq ▸ ha), fun heq => hnN (heq ▸ ha), fun heq =>
      hout a (.inr (mem_of_root _ heq)) a (.inr (.inr ha)) rfl⟩
  have hsibs : ∀ a ∈ inorder .left sib, a ≠ p ∧ a ≠ n ∧ x.root ≠ some a ∧ up fs ≠ some a :=
    fun a ha => ⟨fun heq => hpS (heq ▸ ha), fun heq => hnS (heq ▸ ha), fun heq =>
      hout a (.inr (mem_of_root _ heq)) a (.inr (.inl ha)) rfl, fun heq =>
      hSN a ha a (up_mem_nodes heq) rfl⟩
  have hys : ∀ a ∈ inorder .left y, a ≠ p ∧ a ≠ n ∧ x.root ≠ some a ∧ up fs ≠ some a :=
    fun a ha => ⟨hout a (.inl ha) p (.inl rfl), fun heq => hnY (heq ▸ ha), fun heq =>
      hYX a ha a (mem_of_root _ heq) rfl, fun heq =>
      hout a (.inl ha) a (.inr (.inr (up_mem_nodes heq))) rfl⟩
  have hxs : ∀ a ∈ inorder .left x, a ≠ p ∧ a ≠ n ∧ up fs ≠ some a :=
    fun a ha => ⟨hout a (.inr ha) p (.inl rfl), fun heq => hnX (heq ▸ ha), fun heq =>
      hout a (.inr ha) a (.inr (.inr (up_mem_nodes heq))) rfl⟩
  have hxp : x.root ≠ some p := fun heq => hout p (.inr (mem_of_root _ heq)) p (.inl rfl) rfl
  have hupp : up fs ≠ some p := fun heq => hpN (up_mem_nodes heq)
  have hupn : up fs ≠ some n := fun heq => hnN (up_mem_nodes heq)
  -- The links after the first three steps, and after all of them.
  let t1 := setParent (adopt (setChild t p s x.root) x.root (some p)) n (up fs)
  have hheader : t1.header = t.header := by simp [t1]
  have h1 : Around t1.toMem t1.header.parent fs (some p) := by
    rw [hheader]
    refine hup.congr (fun a ha => ?_) fun a ha => ?_
    · obtain ⟨-, hne', hroot⟩ := hfs a ha
      simp [t1, hne', hroot]
    · funext d
      simp [t1, (hfs a ha).1]
  let t2 := relink t1 (up fs) p (some n)
  have h2 : Around t2.toMem t2.header.parent fs (some n) := around_relink h1 hN hpN
  let t3 := setChild (setParent t2 p (some n)) n s.flip (some p)
  have hrot : rotate t n s.flip = some t3 := by
    have hparp : (adopt (setChild t p s x.root) x.root (some p)).parent p = up fs := by
      simp [hxp, hpup]
    simp only [rotate, hp, hnx, Side.flip_flip, Option.bind_eq_bind, Option.bind_some, hparp]
    rfl
  have hparent : ∀ a, t3.parent a = if a = p then some n else if a = n then up fs
      else if x.root = some a then some p else t.parent a := by
    intro a
    simp [t3, t2, t1]
  have hchild : ∀ a, up fs ≠ some a → ∀ d, t3.child a d = if a = n ∧ d = s.flip then some p
      else if a = p ∧ d = s then x.root else t.child a d := by
    intro a ha d
    simp [t3, t2, t1, ha]
  refine ⟨t3, hrot, ⟨?_, ?_, ?_⟩, ?_⟩
  · rw [root_join]
    refine h2.congr (fun a ha => ?_) fun a ha => ?_
    · simp [t3, (hfs a ha).1]
    · funext d
      simp [t3, (hfs a ha).2.1]
  · refine (holds_join _ _ _).mpr ⟨?_, ?_, ?_, ?_, (holds_join _ _ _).mpr ⟨?_, ?_, ?_, ?_, ?_⟩⟩
    · rw [hparent, if_neg hne, if_pos rfl]
    · rw [hchild n hupn, if_neg (by simp), if_neg (by simp [hne]), hny]
    · rw [hchild n hupn, if_pos ⟨rfl, rfl⟩, root_join]
    · refine hy.congr (fun a ha => ?_) fun a ha => ?_
      · obtain ⟨hap, han, hax, -⟩ := hys a ha
        rw [hparent, if_neg hap, if_neg han, if_neg hax]
      · obtain ⟨hap, han, -, hau⟩ := hys a ha
        funext d
        rw [hchild a hau, if_neg (by simp [han]), if_neg (by simp [hap])]
    · rw [hparent, if_pos rfl]
    · rw [hchild p hupp, if_neg (by simp [Ne.symm hne]), if_pos ⟨rfl, rfl⟩]
    · rw [hchild p hupp, if_neg (by simp [Ne.symm hne]), if_neg (by simp), hpsib]
    · refine hx.relink hX (fun a ha => ?_) (fun a ha hax => ?_) fun a ha => ?_
      · obtain ⟨hap, han, -⟩ := hxs a (mem_of_root _ ha)
        rw [hparent, if_neg hap, if_neg han, if_pos ha]
      · obtain ⟨hap, han, -⟩ := hxs a ha
        rw [hparent, if_neg hap, if_neg han, if_neg hax]
      · obtain ⟨hap, han, hau⟩ := hxs a ha
        funext d
        rw [hchild a hau, if_neg (by simp [han]), if_neg (by simp [hap])]
    · refine hsib.congr (fun a ha => ?_) fun a ha => ?_
      · obtain ⟨hap, han, hax, -⟩ := hsibs a ha
        rw [hparent, if_neg hap, if_neg han, if_neg hax]
      · obtain ⟨hap, han, -, hau⟩ := hsibs a ha
        funext d
        rw [hchild a hau, if_neg (by simp [han]), if_neg (by simp [hap])]
  · rw [inorder_rotate]
    exact ((zip_cons_iff _).mp h).nodup
  · have hmem : ∀ a, a = n ∨ a = p ∨ x.root = some a ∨ up fs = some a →
        a ∈ inorder .left (plug (⟨s, p, sib⟩ :: fs) (join s y n x)) := by
      intro a ha
      rw [hperm.mem_iff]
      rcases ha with rfl | rfl | ha | ha
      · simp
      · simp [nodes]
      · simp [mem_of_root .left ha]
      · simp [nodes, up_mem_nodes ha]
    exact (((((Relinks.setChild (hmem p (.inr (.inl rfl))) s x.root).trans
      (.adopt (fun a ha => hmem a (.inr (.inr (.inl ha)))) _)).trans
      (.setParent (hmem n (.inl rfl)) _)).trans
      (.relink (fun a ha => hmem a (.inr (.inr (.inr ha)))) _ _)).trans
      (.setParent (hmem p (.inr (.inl rfl))) _)).trans (.setChild (hmem n (.inl rfl)) _ _)

omit [DecidableEq α] in
theorem not_mem_nodes {t : Tree α D} {sh : Shape α} {n : α} (h : t.Zip fs sh)
    (hn : sh.root = some n) : n ∉ nodes fs := fun hmem =>
  (nodup_append.mp h.nodup).2.2 n (mem_of_root _ hn) n hmem rfl

omit [DecidableEq α] in
theorem parent_root {t : Tree α D} {sh : Shape α} {n : α} (h : t.Zip fs sh) (hn : sh.root = some n)
    : t.parent n = up fs := by
  obtain ⟨l, r, rfl⟩ := exists_node_of_root hn
  exact h.holds.1

theorem rotateUp_eq {t : Tree α D} {sh : Shape α} {n : α} (h : t.Zip (f :: fs) sh)
    (hn : sh.root = some n) :
    rotateUp t n = rotate t n f.side.flip := by
  have hpar : t.parent n = some f.node := parent_root h hn
  have haround := h.around
  rw [hn] at haround
  have hdir : direction t f.node n = f.side := direction_eq haround (not_mem_nodes h hn)
  simp only [rotateUp, hpar, Option.bind_eq_bind, Option.bind_some, hdir]

theorem rotateUp_spec {t : Tree α D} {l r : Shape α} {n : α} (h : t.Zip (f :: fs) (.node l n r)) :
    ∃ t' l' r', rotateUp t n = some t' ∧ t'.Zip fs (.node l' n r') ∧
      (∀ d, inorder d (.node l' n r') = inorder d (join f.side (.node l n r) f.node f.other)) ∧
      Relinks (inorder .left (plug (f :: fs) (.node l n r))) t t' := by
  obtain ⟨s, p, sib⟩ := f
  obtain ⟨y, x, hjoin⟩ := exists_join s l n r
  have hup := rotateUp_eq h (root_node l n r)
  rw [hjoin] at h
  obtain ⟨t', hrot, hzip, hrel⟩ := rotate_spec h
  obtain ⟨l', r', hjoin'⟩ := exists_node_of_root (root_join s y n (join s x p sib))
  refine ⟨t', l', r', ?_, ?_, ?_, ?_⟩
  · rw [hup, hrot]
  · rw [← hjoin']
    exact hzip
  · intro d
    rw [← hjoin', inorder_rotate, hjoin]
  · rw [hjoin]
    exact hrel

omit [DecidableEq α] in
theorem inorder_plug_congr {sh sh' : Shape α} (s : Side) (h : inorder s sh = inorder s sh') :
    inorder s (plug fs sh) = inorder s (plug fs sh') := by
  rw [inorder_plug, inorder_plug, h]

/-- The splay brings the node to the root and keeps the order of the nodes. -/
theorem splay_spec {t : Tree α D} {l r : Shape α} {n : α} (h : t.Zip fs (.node l n r))
    (hfuel : fs.length < fuel) :
    ∃ t' l' r', splay fuel t n = some t' ∧ t'.Zip [] (.node l' n r') ∧
      (∀ d, inorder d (.node l' n r') = inorder d (plug fs (.node l n r))) ∧
      Relinks (inorder .left (plug fs (.node l n r))) t t' := by
  induction fuel generalizing t fs l r with
  | zero => exact absurd hfuel (Nat.not_lt_zero _)
  | succ fuel ih =>
    have hpar : t.parent n = up fs := h.holds.1
    match fs, h, hpar with
    | [], h, hpar =>
      exact ⟨t, l, r, by simp [splay, hpar], h, fun _ => rfl, .refl _ t⟩
    | [f], h, hpar =>
      have hgrand : t.parent f.node = none := h.around.1
      obtain ⟨t', l', r', hrot, hzip, horder, hrel⟩ := rotateUp_spec h
      refine ⟨t', l', r', ?_, hzip, horder, hrel⟩
      simp [splay, hpar, hgrand, hrot]
    | f :: g :: fs, h, hpar =>
      have hgrand : t.parent f.node = some g.node := h.around.1
      have hup : t.Zip (g :: fs) (join f.side (.node l n r) f.node f.other) := (zip_cons_iff f).mp h
      have hroot : (join f.side (.node l n r) f.node f.other).root = some f.node := root_join _ _ _ _
      have hdir : direction t f.node n = f.side := direction_eq h.around (not_mem_nodes h rfl)
      have hdir' : direction t g.node f.node = g.side := by
        have haround := hup.around
        rw [hroot] at haround
        exact direction_eq haround (not_mem_nodes hup hroot)
      by_cases hside : f.side = g.side
      · -- zig-zig: the parent goes above the grand-parent, then the node above both.
        obtain ⟨s, p, sib⟩ := f
        obtain ⟨s', g, gsib⟩ := g
        obtain rfl : s = s' := hside
        obtain ⟨t1, hrot, hzip, hrel⟩ := rotate_spec hup
        have hzip' : t1.Zip (⟨s, p, join s sib g gsib⟩ :: fs) (.node l n r) :=
          (zip_cons_iff _).mpr hzip
        obtain ⟨t2, l2, r2, hrot2, hzip2, horder2, hrel2⟩ := rotateUp_spec hzip'
        obtain ⟨t', l', r', hsplay, hzip3, horder3, hrel3⟩ := ih hzip2 (by simp at hfuel; omega)
        have horder : ∀ d, inorder d (.node l2 n r2) =
            inorder d (join s (join s (.node l n r) p sib) g gsib) := fun d => by
          rw [horder2, ← inorder_rotate]
        refine ⟨t', l', r', ?_, hzip3, fun d => ?_, ?_⟩
        · have hne : direction t p n = direction t g p := hdir.trans hdir'.symm
          have hrot1 : rotateUp t p = some t1 := by
            rw [rotateUp_eq hup hroot]
            exact hrot
          simp only [splay, hpar, up_cons, hgrand, hne, if_true, Option.bind_eq_bind, hrot1,
            Option.bind_some, hrot2, hsplay]
        · rw [horder3, inorder_plug_congr d (horder d)]
          rfl
        · refine hrel.trans ((hrel2.mono fun a ha => ?_).trans (hrel3.mono fun a ha => ?_))
          · rw [plug_cons, inorder_plug_congr .left (inorder_rotate .left s _ _ _ _ _)] at ha
            exact ha
          · rw [inorder_plug_congr .left (horder .left)] at ha
            exact ha
      · -- zig-zag: the node goes above the parent, then above the grand-parent.
        obtain ⟨t1, l1, r1, hrot1, hzip1, horder1, hrel1⟩ := rotateUp_spec h
        obtain ⟨t2, l2, r2, hrot2, hzip2, horder2, hrel2⟩ := rotateUp_spec hzip1
        obtain ⟨t', l', r', hsplay, hzip3, horder3, hrel3⟩ := ih hzip2 (by simp at hfuel; omega)
        have hne : direction t f.node n ≠ direction t g.node f.node := by rwa [hdir, hdir']
        have horder : ∀ d, inorder d (.node l2 n r2) =
            inorder d (join g.side (join f.side (.node l n r) f.node f.other) g.node g.other) := by
          intro d
          rw [horder2]
          have hone : inorder d (plug [g] _) = inorder d (plug [g] _) :=
            inorder_plug_congr d (horder1 d)
          exact hone
        refine ⟨t', l', r', ?_, hzip3, fun d => ?_, ?_⟩
        · simp only [splay, hpar, up_cons, hgrand, hne, if_false, Option.bind_eq_bind, hrot1,
            Option.bind_some, hrot2, hsplay]
        · rw [horder3, inorder_plug_congr d (horder d)]
          rfl
        · refine hrel1.trans ((hrel2.mono fun a ha => ?_).trans (hrel3.mono fun a ha => ?_))
          · rw [inorder_plug_congr .left (horder1 .left)] at ha
            exact ha
          · rw [inorder_plug_congr .left (horder .left)] at ha
            exact ha

/-! ## Neighbours -/

omit [DecidableEq α] in
/-- The walk to the end of a subtree on side `s` finds its first node from that
side. -/
theorem farthest_spec {t : Tree α D} {s : Side} {p : Option α} {sh : Shape α} {a : α}
    (h : Holds t.toMem p sh) (ha : sh.root = some a) (hfuel : (inorder s sh).length ≤ fuel) :
    farthest t s fuel a = (inorder s sh).head? := by
  induction fuel generalizing p sh a with
  | zero =>
    have hmem : a ∈ inorder s sh := mem_of_root s ha
    rw [length_eq_zero_iff.mp (Nat.le_zero.mp hfuel)] at hmem
    exact absurd hmem not_mem_nil
  | succ fuel ih =>
    obtain ⟨l, r, rfl⟩ := exists_node_of_root ha
    obtain ⟨y, x, hjoin⟩ := exists_join s l a r
    rw [hjoin] at h hfuel ⊢
    obtain ⟨-, hy, -, hholds, -⟩ := (holds_join _ _ _).mp h
    rw [farthest, hy, inorder_join]
    rw [inorder_join, length_append, length_cons] at hfuel
    cases hroot : y.root with
    | none =>
      rw [eq_nil_of_root hroot]
      rfl
    | some b =>
      have hne : inorder s y ≠ [] := ne_nil_of_mem (mem_of_root s hroot)
      rw [head?_append_of_ne_nil _ hne]
      exact ih hholds hroot (by omega)

theorem climb_spec {t : Tree α D} {d : Side} {n : α}
    (h : Around t.toMem t.header.parent fs (some n)) (hn : n ∉ nodes fs) (hnodup : (nodes fs).Nodup)
    (hfuel : fs.length ≤ fuel) :
    climb t d fuel n (up fs) = some (after d.flip fs).head? := by
  induction fs generalizing fuel n with
  | nil => cases fuel <;> rfl
  | cons f fs ih =>
    obtain ⟨hpar, hside, hflip, -, hup⟩ := h
    cases fuel with
    | zero => exact absurd hfuel (Nat.not_succ_le_zero _)
    | succ fuel =>
      rw [nodes, nodup_cons, mem_append, not_or] at hnodup
      obtain ⟨⟨-, hnot⟩, hnodup⟩ := hnodup
      show (if t.child f.node d = some n then climb t d fuel f.node (t.parent f.node)
        else some (some f.node)) = _
      by_cases hd : f.side = d
      · subst hd
        rw [if_pos hside, hpar, after, if_neg (Side.ne_flip _)]
        exact ih hup hnot (nodup_append.mp hnodup).2.1 (Nat.le_of_succ_le_succ hfuel)
      · have hd' : f.side = d.flip := Side.eq_flip_of_ne hd
        rw [hd', Side.flip_flip] at hflip
        rw [if_neg, after, if_pos hd']
        · rfl
        · rw [hflip]
          intro hroot
          exact hn (mem_cons_of_mem _ (mem_append_left _ (mem_of_root _ hroot)))

/-- The memory holds a tree whose nodes are in use. -/
structure Tree.Holds (t : Tree α D) (sh : Shape α) : Prop where
  zip : t.Zip [] sh
  live : ∀ a ∈ inorder .left sh, a ∈ t.live

namespace Tree.Holds

variable {t : Tree α D} {sh : Shape α}

omit [DecidableEq α] in
theorem nodup (h : t.Holds sh) : (inorder .left sh).Nodup := by
  simpa [nodes] using h.zip.nodup

omit [DecidableEq α] in
theorem length_le (h : t.Holds sh) : (inorder .left sh).length ≤ t.live.length :=
  (List.Nodup.subperm h.nodup fun _ ha => h.live _ ha).length_le

omit [DecidableEq α] in
/-- The tree is no larger than the number of steps that walks are given. -/
theorem plug_lt_fuel {fs : Path α} {sh : Shape α} (h : t.Holds (plug fs sh)) :
    (inorder .left sh).length + fs.length < t.fuel := by
  have hperm := (inorder_plug_perm fs sh).length_eq
  have hlen := h.length_le
  have hfs := length_le_nodes fs
  rw [length_append] at hperm
  rw [Tree.fuel]
  omega

end Tree.Holds

/-- The nodes of the tree are in use, and its header points to the root, to the
first and to the last of them, and has their number. -/
structure Represents (t : Tree α D) (sh : Shape α) : Prop extends t.Holds sh where
  ends : ∀ s, t.header.child s = (inorder s sh).head?
  size : t.header.data = (inorder .left sh).length

omit [DecidableEq α] in
theorem split_unique {xs ys xs' ys' : List α} {n : α} (h : xs ++ n :: ys = xs' ++ n :: ys')
    (hnodup : (xs ++ n :: ys).Nodup) : xs = xs' ∧ ys = ys' := by
  obtain ⟨-, hcons, hdisj⟩ := nodup_append.mp hnodup
  have hxs : n ∉ xs := fun hmem => hdisj n hmem n mem_cons_self rfl
  obtain ⟨h1, -, h2⟩ :=
    (append_cons_inj_of_notMem hxs (nodup_cons.mp hcons).1).mp h
  exact ⟨h1, h2⟩

theorem neighbour_spec {t : Tree α D} {sh : Shape α} {d : Side} {n : α} {xs ys : List α}
    (h : t.Holds sh) (hsplit : inorder d.flip sh = xs ++ n :: ys) :
    neighbour t d n = some ys.head? := by
  have hn : n ∈ inorder .left sh := by
    rw [mem_inorder_iff .left d.flip, hsplit]
    exact mem_append_right _ mem_cons_self
  obtain ⟨fs, l, r, rfl⟩ := exists_plug hn
  have hzip : t.Zip fs (.node l n r) := zip_plug_iff.mp h.zip
  have hfuel := h.plug_lt_fuel
  obtain ⟨y, x, hjoin⟩ := exists_join d.flip l n r
  have hnot : n ∉ nodes fs := not_mem_nodes hzip rfl
  have hys : ys = inorder d.flip x ++ after d.flip fs := by
    have hnodup : (inorder d.flip (plug fs (.node l n r))).Nodup := by
      exact (inorder_perm d.flip _).nodup_iff.mpr h.nodup
    rw [hsplit] at hnodup
    rw [inorder_plug, hjoin, inorder_join, append_assoc, append_assoc,
      cons_append, ← append_assoc] at hsplit
    exact (split_unique hsplit.symm hnodup).2
  have hpar : t.parent n = up fs := parent_root hzip rfl
  have hholds := hzip.holds
  rw [hjoin] at hholds hfuel
  obtain ⟨-, -, hx, -, hhx⟩ := (holds_join _ _ _).mp hholds
  rw [Side.flip_flip] at hx
  rw [neighbour, hx, hys]
  cases hroot : x.root with
  | none =>
    rw [eq_nil_of_root hroot]
    show climb t d t.fuel n (t.parent n) = _
    rw [hpar]
    exact climb_spec hzip.around hnot (nodup_append.mp hzip.nodup).2.1 (by omega)
  | some c =>
    have hne : inorder d.flip x ≠ [] := ne_nil_of_mem (mem_of_root _ hroot)
    rw [head?_append_of_ne_nil _ hne]
    have hlen : (inorder d.flip x).length ≤ t.fuel := by
      rw [(inorder_perm d.flip x).length_eq]
      rw [(inorder_join_perm _ _ _ _).length_eq, length_cons, length_append] at hfuel
      omega
    show (farthest t d.flip t.fuel c).map some = _
    rw [farthest_spec hhx hroot hlen]
    cases hhead : (inorder d.flip x).head? with
    | none => exact absurd (head?_eq_none_iff.mp hhead) hne
    | some b => rfl

/-! ## Trees as lists of nodes -/

/-- The tree has the nodes `l`, in order. -/
def Contains (t : Tree α D) (l : List α) : Prop :=
  ∃ sh, Represents t sh ∧ inorder .left sh = l

namespace Contains

variable {t : Tree α D} {l xs ys : List α} {n : α}

omit [DecidableEq α] in
theorem nodup (h : Contains t l) : l.Nodup := by
  obtain ⟨sh, hsh, rfl⟩ := h
  exact hsh.nodup

omit [DecidableEq α] in
theorem live (h : Contains t l) {a : α} (ha : a ∈ l) : a ∈ t.live := by
  obtain ⟨sh, hsh, rfl⟩ := h
  exact hsh.live a ha

omit [DecidableEq α] in
theorem length_lt_fuel (h : Contains t l) : l.length < t.fuel := by
  obtain ⟨sh, hsh, rfl⟩ := h
  exact Nat.lt_succ_of_le hsh.length_le

omit [DecidableEq α] in
theorem size (h : Contains t l) : t.header.data = l.length := by
  obtain ⟨sh, hsh, rfl⟩ := h
  exact hsh.size

omit [DecidableEq α] in
theorem first (h : Contains t l) : t.header.child .left = l.head? := by
  obtain ⟨sh, hsh, rfl⟩ := h
  exact hsh.ends .left

omit [DecidableEq α] in
theorem root_eq_none_iff (h : Contains t l) : t.header.parent = none ↔ l = [] := by
  obtain ⟨sh, hsh, rfl⟩ := h
  have hroot : t.header.parent = sh.root := hsh.zip.around
  cases sh with
  | nil => simp [hroot]
  | node _ _ _ => simp [hroot, inorder]

theorem successor (h : Contains t (xs ++ n :: ys)) :
    SplayTree.successor t n = some ys.head? := by
  obtain ⟨sh, hsh, hl⟩ := h
  exact neighbour_spec hsh.toHolds hl

theorem predecessor (h : Contains t (xs ++ n :: ys)) :
    SplayTree.predecessor t n = some xs.getLast? := by
  obtain ⟨sh, hsh, hl⟩ := h
  have hsplit : inorder Side.left.flip sh = ys.reverse ++ n :: xs.reverse := by
    rw [inorder_flip, hl]
    simp
  rw [← head?_reverse]
  exact neighbour_spec hsh.toHolds hsplit

theorem splay (h : Contains t l) (hn : n ∈ l) :
    ∃ t', SplayTree.splay t.fuel t n = some t' ∧ Contains t' l ∧ Relinks l t t' := by
  obtain ⟨sh, hsh, rfl⟩ := h
  obtain ⟨fs, l, r, rfl⟩ := exists_plug hn
  have hlt := hsh.plug_lt_fuel
  obtain ⟨t', l', r', hsplay, hzip, horder, hrel⟩ :=
    splay_spec (zip_plug_iff.mp hsh.zip) (show fs.length < t.fuel by omega)
  refine ⟨t', hsplay, ⟨.node l' n r', ⟨⟨hzip, fun a ha => ?_⟩, fun s => ?_, ?_⟩, horder .left⟩, hrel⟩
  · rw [hrel.live]
    exact hsh.live a (horder .left ▸ ha)
  · rw [hrel.ends, horder]
    exact hsh.ends s
  · rw [hrel.size, horder]
    exact hsh.size

omit [DecidableEq α] in
theorem of_touches {t' : Tree α D} {k : List α} (h : Contains t l) (htouch : Touches k t t')
    (hheader : t'.header = t.header) (hdisj : ∀ a ∈ l, a ∉ k) : Contains t' l := by
  obtain ⟨sh, hsh, rfl⟩ := h
  refine ⟨sh, ⟨⟨?_, fun a ha => ?_⟩, fun s => ?_, ?_⟩, rfl⟩
  · have hzip : LinkedTree.Zip t'.toMem t.header.parent [] sh :=
      hsh.zip.congr (fun a ha => htouch.parent a (hdisj a ha))
        fun a ha => htouch.child a (hdisj a ha)
    rw [← hheader] at hzip
    exact hzip
  · exact (htouch.live a (hdisj a ha)).mpr (hsh.live a ha)
  · rw [hheader]
    exact hsh.ends s
  · rw [hheader]
    exact hsh.size

end Contains

end Hostboot.Util.SplayTree
