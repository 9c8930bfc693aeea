import Mathlib.Data.List.Nodup
import Mathlib.Data.List.Perm.Subperm
import Mathlib.Logic.Function.Basic

/-!
# Binary trees linked by pointers

A node of such a tree keeps the address of its parent and of its two children.
`Mem` is what the memory holds at each address, and `Holds` says that it holds
a given tree of addresses below a given parent.

The module has three parts:

* shapes, the trees of addresses.  `inorder s` lists the nodes of a shape from
  side `s` to the other side, so that a statement about `inorder` covers both
  directions of a search tree at once.  `join s` is a node seen from side `s`;
* paths.  A path is the way from a place in the tree up to the root: for each
  node above, the side the way comes from and the shape on the other side.
  `plug` puts a shape at the end of a path, and every node of a shape is the
  root of what some path ends in;
* the memory.  `Zip` says that the memory holds the whole tree, seen from the
  end of a path.  `zip_cons_iff` moves that view by one node.
-/

namespace Hostboot.Lib.LinkedTree

open List

variable {α : Type*}

/-- The two sides of a node. -/
inductive Side
  | left
  | right
  deriving DecidableEq, Repr

namespace Side

/-- The other side. -/
def flip : Side → Side
  | left => right
  | right => left

@[simp] theorem flip_left : left.flip = right := rfl

@[simp] theorem flip_right : right.flip = left := rfl

@[simp] theorem flip_flip (s : Side) : s.flip.flip = s := by cases s <;> rfl

@[simp] theorem flip_ne (s : Side) : s.flip ≠ s := by cases s <;> decide

@[simp] theorem ne_flip (s : Side) : s ≠ s.flip := by cases s <;> decide

theorem eq_flip_of_ne {s d : Side} (h : s ≠ d) : s = d.flip := by
  cases s <;> cases d <;> first | rfl | exact absurd rfl h

end Side

/-! ## Shapes -/

/-- A tree of addresses. -/
inductive Shape (α : Type*)
  | nil
  | node (l : Shape α) (a : α) (r : Shape α)

namespace Shape

/-- The address of the top node. -/
def root : Shape α → Option α
  | nil => none
  | node _ a _ => some a

/-- The node `a` with `t` on side `s` and `u` on the other side. -/
def join (s : Side) (t : Shape α) (a : α) (u : Shape α) : Shape α :=
  match s with
  | .left => node t a u
  | .right => node u a t

/-- The nodes, from side `s` to the other side. -/
def inorder (s : Side) : Shape α → List α
  | nil => []
  | node l a r =>
    match s with
    | .left => inorder s l ++ a :: inorder s r
    | .right => inorder s r ++ a :: inorder s l

attribute [grind =] inorder

@[simp] theorem root_nil : (nil : Shape α).root = none := rfl

@[simp] theorem root_node (l : Shape α) (a : α) (r : Shape α) : (node l a r).root = some a := rfl

@[simp] theorem root_join (s : Side) (t : Shape α) (a : α) (u : Shape α) :
    (join s t a u).root = some a := by cases s <;> rfl

@[simp] theorem inorder_nil (s : Side) : inorder s (nil : Shape α) = [] := rfl

@[simp] theorem inorder_join (s : Side) (t : Shape α) (a : α) (u : Shape α) :
    inorder s (join s t a u) = inorder s t ++ a :: inorder s u := by cases s <;> rfl

@[simp] theorem inorder_join_flip (s : Side) (t : Shape α) (a : α) (u : Shape α) :
    inorder s (join s.flip t a u) = inorder s u ++ a :: inorder s t := by cases s <;> rfl

theorem exists_join (s : Side) (l : Shape α) (a : α) (r : Shape α) :
    ∃ t u, node l a r = join s t a u := by
  cases s with
  | left => exact ⟨l, r, rfl⟩
  | right => exact ⟨r, l, rfl⟩

theorem eq_nil_of_root {t : Shape α} (h : t.root = none) : t = nil := by
  cases t with
  | nil => rfl
  | node l a r => exact absurd h (by simp)

theorem exists_node_of_root {t : Shape α} {a : α} (h : t.root = some a) :
    ∃ l r, t = node l a r := by
  cases t with
  | nil => exact absurd h (by simp)
  | node l b r =>
    obtain rfl := Option.some.inj h
    exact ⟨l, r, rfl⟩

theorem inorder_flip (s : Side) (t : Shape α) : inorder s.flip t = (inorder s t).reverse := by
  induction t with
  | nil => rfl
  | node l a r ihl ihr => cases s <;> simp_all [inorder]

theorem mem_inorder_iff (s d : Side) (t : Shape α) (a : α) :
    a ∈ inorder s t ↔ a ∈ inorder d t := by
  by_cases h : s = d
  · rw [h]
  · rw [Side.eq_flip_of_ne h, inorder_flip, mem_reverse]

theorem inorder_rotate (d s : Side) (y x sib : Shape α) (n p : α) :
    inorder d (join s y n (join s x p sib)) = inorder d (join s (join s y n x) p sib) := by
  cases s <;> cases d <;> simp [join, inorder]

theorem inorder_join_perm (s : Side) (t : Shape α) (a : α) (u : Shape α) :
    (inorder .left (join s t a u)).Perm (a :: (inorder .left t ++ inorder .left u)) := by
  cases s with
  | left => exact perm_middle
  | right => exact perm_middle.trans (perm_append_comm.cons a)

theorem mem_of_root {t : Shape α} {a : α} (s : Side) (h : t.root = some a) :
    a ∈ inorder s t := by
  obtain ⟨l, r, rfl⟩ := exists_node_of_root h
  rw [mem_inorder_iff s .left]
  exact mem_append_right _ mem_cons_self

end Shape

open Shape

/-! ## Paths -/

/-- A node on the way to the root: the way comes from `side`, and `other` hangs
on the other side. -/
structure Frame (α : Type*) where
  side : Side
  node : α
  other : Shape α

/-- The way to the root, nearest node first. -/
abbrev Path (α : Type*) := List (Frame α)

namespace Path

/-- The parent of what the path ends in. -/
def up : Path α → Option α
  | [] => none
  | f :: _ => some f.node

/-- The whole tree, with `t` at the end of the path. -/
def plug : Path α → Shape α → Shape α
  | [], t => t
  | f :: fs, t => plug fs (join f.side t f.node f.other)

/-- The nodes of the tree that come before the end of the path, from side `s`. -/
def before (s : Side) : Path α → List α
  | [] => []
  | f :: fs => before s fs ++ if f.side = s then [] else inorder s f.other ++ [f.node]

/-- The nodes of the tree that come behind the end of the path, from side `s`. -/
def after (s : Side) : Path α → List α
  | [] => []
  | f :: fs => (if f.side = s then f.node :: inorder s f.other else []) ++ after s fs

/-- The nodes of the tree that are not at the end of the path. -/
def nodes : Path α → List α
  | [] => []
  | f :: fs => f.node :: (inorder .left f.other ++ nodes fs)

attribute [grind =] plug before after nodes

@[simp] theorem up_nil : up ([] : Path α) = none := rfl

@[simp] theorem up_cons (f : Frame α) (fs : Path α) : up (f :: fs) = some f.node := rfl

@[simp] theorem plug_nil (t : Shape α) : plug [] t = t := rfl

@[simp] theorem plug_cons (f : Frame α) (fs : Path α) (t : Shape α) :
    plug (f :: fs) t = plug fs (join f.side t f.node f.other) := rfl

theorem inorder_join_side (s d : Side) (t u : Shape α) (a : α) :
    inorder s (join d t a u) =
      (if d = s then [] else inorder s u ++ [a]) ++ inorder s t ++
        (if d = s then a :: inorder s u else []) := by
  by_cases h : d = s
  · subst h
    simp
  · obtain rfl := Side.eq_flip_of_ne h
    simp

theorem inorder_plug (s : Side) (fs : Path α) (t : Shape α) :
    inorder s (plug fs t) = before s fs ++ inorder s t ++ after s fs := by
  induction fs generalizing t with
  | nil => simp [before, after]
  | cons f fs ih =>
    rw [plug_cons, ih, inorder_join_side]
    simp only [before, after, append_assoc]

theorem inorder_perm (s : Side) (t : Shape α) : (inorder s t).Perm (inorder .left t) := by
  cases s with
  | left => exact .refl _
  | right =>
    rw [show Side.right = Side.left.flip from rfl, inorder_flip]
    exact reverse_perm _

theorem inorder_plug_perm (fs : Path α) (t : Shape α) :
    (inorder .left (plug fs t)).Perm (inorder .left t ++ nodes fs) := by
  induction fs generalizing t with
  | nil => simp [nodes]
  | cons f fs ih =>
    rw [plug_cons]
    refine (ih _).trans ?_
    rw [nodes]
    cases f.side with
    | left =>
      show (inorder .left t ++ f.node :: inorder .left f.other ++ nodes fs).Perm _
      simp
    | right =>
      show (inorder .left f.other ++ f.node :: inorder .left t ++ nodes fs).Perm _
      refine (List.Perm.append_right _ perm_append_comm).trans ?_
      have hmiddle : (inorder .left t ++ f.node :: (inorder .left f.other ++ nodes fs)).Perm _ :=
        perm_middle
      simpa using hmiddle.symm

theorem plug_append (fs gs : Path α) (t : Shape α) :
    plug (fs ++ gs) t = plug gs (plug fs t) := by
  induction fs generalizing t with
  | nil => rfl
  | cons f fs ih => exact ih _

theorem exists_plug {t : Shape α} {a : α} (h : a ∈ inorder .left t) :
    ∃ fs l r, t = plug fs (Shape.node l a r) := by
  induction t with
  | nil => exact absurd h not_mem_nil
  | node l b r ihl ihr =>
    rcases mem_append.mp h with hl | hr
    · obtain ⟨fs, l', r', rfl⟩ := ihl hl
      refine ⟨fs ++ [⟨.left, b, r⟩], l', r', ?_⟩
      rw [plug_append]
      rfl
    · rcases mem_cons.mp hr with rfl | hr
      · exact ⟨[], l, r, rfl⟩
      · obtain ⟨fs, l', r', rfl⟩ := ihr hr
        refine ⟨fs ++ [⟨.right, b, l⟩], l', r', ?_⟩
        rw [plug_append]
        rfl

theorem length_le_nodes (fs : Path α) : fs.length ≤ (nodes fs).length := by
  induction fs with
  | nil => exact Nat.le_refl 0
  | cons f fs ih =>
    simp only [nodes, length_cons, length_append]
    omega

end Path

open LinkedTree.Path

/-! ## The memory -/

/-- The links at each address. -/
structure Mem (α : Type*) where
  parent : α → Option α
  child : α → Side → Option α

variable {m m' : Mem α} {root root' : Option α} {fs : Path α} {t u : Shape α}

/-- The memory holds the shape below the given parent. -/
def Holds (m : Mem α) : Option α → Shape α → Prop
  | _, .nil => True
  | p, .node l a r =>
    m.parent a = p ∧ m.child a .left = l.root ∧ m.child a .right = r.root ∧
      Holds m (some a) l ∧ Holds m (some a) r

@[simp] theorem holds_nil (m : Mem α) (p : Option α) : Holds m p .nil := trivial

theorem holds_join (s : Side) (p : Option α) (a : α) :
    Holds m p (join s t a u) ↔
      m.parent a = p ∧ m.child a s = t.root ∧ m.child a s.flip = u.root ∧
        Holds m (some a) t ∧ Holds m (some a) u := by
  cases s with
  | left => exact Iff.rfl
  | right =>
    show (_ ∧ _ ∧ _ ∧ _ ∧ _) ↔ _
    simp only [Side.flip_right]
    tauto

/-- The memory holds what is around the end of a path, where it has `c`. -/
def Around (m : Mem α) (root : Option α) : Path α → Option α → Prop
  | [], c => root = c
  | f :: fs, c =>
    m.parent f.node = up fs ∧ m.child f.node f.side = c ∧
      m.child f.node f.side.flip = f.other.root ∧ Holds m (some f.node) f.other ∧
      Around m root fs (some f.node)

attribute [grind =] Holds Around

/-- The memory holds the tree `plug fs t`, with each node at an address of its
own. -/
structure Zip (m : Mem α) (root : Option α) (fs : Path α) (t : Shape α) : Prop where
  around : Around m root fs t.root
  holds : Holds m (up fs) t
  nodup : (inorder .left t ++ nodes fs).Nodup

theorem zip_cons_iff (f : Frame α) :
    Zip m root (f :: fs) t ↔ Zip m root fs (join f.side t f.node f.other) := by
  have hperm : (inorder .left t ++ nodes (f :: fs)).Perm
      (inorder .left (join f.side t f.node f.other) ++ nodes fs) :=
    (inorder_plug_perm (f :: fs) t).symm.trans (inorder_plug_perm fs _)
  constructor
  · rintro ⟨⟨hpar, hside, hflip, hother, hup⟩, hholds, hnodup⟩
    refine ⟨?_, (holds_join _ _ _).mpr ⟨hpar, hside, hflip, hholds, hother⟩, ?_⟩
    · rw [root_join]
      exact hup
    · exact hperm.nodup_iff.mp hnodup
  · rintro ⟨hup, hholds, hnodup⟩
    rw [root_join] at hup
    obtain ⟨hpar, hside, hflip, hholds, hother⟩ := (holds_join _ _ _).mp hholds
    exact ⟨⟨hpar, hside, hflip, hother, hup⟩, hholds, hperm.nodup_iff.mpr hnodup⟩

theorem zip_plug_iff : Zip m root [] (plug fs t) ↔ Zip m root fs t := by
  induction fs generalizing t with
  | nil => exact Iff.rfl
  | cons f fs ih =>
    rw [plug_cons, ih]
    exact (zip_cons_iff f).symm

theorem zip_append_iff {gs : Path α} : Zip m root (gs ++ fs) t ↔ Zip m root fs (plug gs t) := by
  refine zip_plug_iff.symm.trans ?_
  rw [plug_append]
  exact zip_plug_iff

theorem Holds.congr {p : Option α} (h : Holds m p t)
    (hparent : ∀ a ∈ inorder .left t, m'.parent a = m.parent a)
    (hchild : ∀ a ∈ inorder .left t, m'.child a = m.child a) : Holds m' p t := by
  induction t generalizing p with
  | nil => trivial
  | node l a r ihl ihr =>
    obtain ⟨hp, hl, hr, hholdsl, hholdsr⟩ := h
    have ha : a ∈ inorder .left (.node l a r) := mem_append_right _ mem_cons_self
    refine ⟨?_, ?_, ?_, ?_, ?_⟩
    · rw [hparent a ha, hp]
    · rw [hchild a ha, hl]
    · rw [hchild a ha, hr]
    · exact ihl hholdsl (fun b hb => hparent b (mem_append_left _ hb))
        fun b hb => hchild b (mem_append_left _ hb)
    · exact ihr hholdsr (fun b hb => hparent b (mem_append_right _ (mem_cons_of_mem _ hb)))
        fun b hb => hchild b (mem_append_right _ (mem_cons_of_mem _ hb))

theorem Holds.relink {p q : Option α} (h : Holds m p t) (hnodup : (inorder .left t).Nodup)
    (hroot : ∀ a, t.root = some a → m'.parent a = q)
    (hparent : ∀ a ∈ inorder .left t, t.root ≠ some a → m'.parent a = m.parent a)
    (hchild : ∀ a ∈ inorder .left t, m'.child a = m.child a) : Holds m' q t := by
  cases t with
  | nil => trivial
  | node l a r =>
    obtain ⟨-, hl, hr, hholdsl, hholdsr⟩ := h
    have ha : a ∈ inorder .left (.node l a r) := mem_append_right _ mem_cons_self
    have hsplit : (inorder .left l).Nodup ∧ (a :: inorder .left r).Nodup ∧
        ∀ b ∈ inorder .left l, ∀ c ∈ a :: inorder .left r, b ≠ c := nodup_append.mp hnodup
    have hnel : ∀ b ∈ inorder .left l, (Shape.node l a r).root ≠ some b := fun b hb heq =>
      hsplit.2.2 b hb a mem_cons_self (Option.some.inj heq).symm
    have hner : ∀ b ∈ inorder .left r, (Shape.node l a r).root ≠ some b := by
      rintro b hb heq
      obtain rfl := Option.some.inj heq
      exact (nodup_cons.mp hsplit.2.1).1 hb
    refine ⟨hroot a rfl, ?_, ?_, ?_, ?_⟩
    · rw [hchild a ha, hl]
    · rw [hchild a ha, hr]
    · exact hholdsl.congr
        (fun b hb => hparent b (mem_append_left _ hb) (hnel b hb))
        fun b hb => hchild b (mem_append_left _ hb)
    · exact hholdsr.congr
        (fun b hb => hparent b (mem_append_right _ (mem_cons_of_mem _ hb)) (hner b hb))
        fun b hb => hchild b (mem_append_right _ (mem_cons_of_mem _ hb))

theorem Around.congr {c : Option α} (h : Around m root fs c)
    (hparent : ∀ a ∈ nodes fs, m'.parent a = m.parent a)
    (hchild : ∀ a ∈ nodes fs, m'.child a = m.child a) : Around m' root fs c := by
  induction fs generalizing c with
  | nil => exact h
  | cons f fs ih =>
    obtain ⟨hp, hs, hf, hother, hup⟩ := h
    have hmem : ∀ a ∈ inorder .left f.other, a ∈ nodes (f :: fs) := fun a ha =>
      mem_cons_of_mem _ (mem_append_left _ ha)
    have hmem' : ∀ a ∈ nodes fs, a ∈ nodes (f :: fs) := fun a ha =>
      mem_cons_of_mem _ (mem_append_right _ ha)
    refine ⟨?_, ?_, ?_, ?_, ?_⟩
    · rw [hparent f.node mem_cons_self, hp]
    · rw [hchild f.node mem_cons_self, hs]
    · rw [hchild f.node mem_cons_self, hf]
    · exact hother.congr (fun a ha => hparent a (hmem a ha)) fun a ha => hchild a (hmem a ha)
    · exact ih hup (fun a ha => hparent a (hmem' a ha)) fun a ha => hchild a (hmem' a ha)

theorem Zip.congr (h : Zip m root [] t)
    (hparent : ∀ a ∈ inorder .left t, m'.parent a = m.parent a)
    (hchild : ∀ a ∈ inorder .left t, m'.child a = m.child a) : Zip m' root [] t :=
  ⟨h.around, h.holds.congr hparent hchild, h.nodup⟩

end Hostboot.Lib.LinkedTree
