import Hostboot.Lib.WeakOrder
import Hostboot.Util.SplayErase

/-!
# Searching a splay tree and inserting into it

A map keeps pairs of a key and a value in the nodes, and the comparison of two
nodes looks at the keys only.  So a search takes the key, where the source takes
a value and pretends that it lies in a node.
-/

namespace Hostboot.Util.SplayTree

open Hostboot.Lib Hostboot.Lib.LinkedTree Shape Path
open List hiding after

universe u

/-- Where new nodes come from: an address that is not in use. -/
structure Allocator (α : Type u) where
  pick : List α → α
  fresh : ∀ l, pick l ∉ l

variable {α K V : Type u} [DecidableEq α]

/-! ## The functions of the source -/

/-- `Map::compare`. -/
def compare (comp : K → K → Bool) (k1 k2 : K) : Int :=
  if comp k1 k2 then -1 else if comp k2 k1 then 1 else 0

/-- The key in a node. -/
def Tree.key (t : Tree α (K × V)) (n : α) : K := (t.data n).1

/-- `copier`: a new node with the value. -/
def copy (A : Allocator α) (t : Tree α (K × V)) (v : K × V) : Tree α (K × V) × α :=
  let n := A.pick t.live
  ({ t with
      parent := Function.update t.parent n none
      child := Function.update t.child n fun _ => none
      data := Function.update t.data n v
      live := n :: t.live }, n)

/-- `SplayTree::__find`. -/
def find (comp : K → K → Bool) (t : Tree α (K × V)) (k : K) : Nat → α → Option (Bool × α)
  | 0, _ => none
  | fuel + 1, n =>
    let compare := compare comp k (t.key n)
    if compare = 0 then some (true, n)
    else
      match if 0 > compare then t.child n .left else t.child n .right with
      | none => some (false, n)
      | some c => find comp t k fuel c

/-- `SplayTree::__insert`. -/
def insertUnder (comp : K → K → Bool) (t : Tree α (K × V)) : Nat → α → α → Option (Tree α (K × V))
  | 0, _, _ => none
  | fuel + 1, h, n =>
    let s := if 0 > compare comp (t.key n) (t.key h) then Side.left else Side.right
    match t.child h s with
    | none => some (setParent (setChild t h s (some n)) n (some h))
    -- The two arguments change places here.
    | some c => insertUnder comp t fuel n c

/-- `header.child[s]` becomes the end of the subtree that it points to. -/
def refreshEnd (t : Tree α (K × V)) (s : Side) : Option (Tree α (K × V)) := do
  let a ← t.header.child s
  let a ← farthest t s t.fuel a
  some (setEnd t s (some a))

/-- `(header_n()->data)++`. -/
def incrementSize (t : Tree α (K × V)) : Tree α (K × V) :=
  { t with header := { t.header with data := t.header.data + 1 } }

/-- "First element." -/
def insertFirst (t : Tree α (K × V)) (n : α) : Tree α (K × V) :=
  { t with
    parent := Function.update t.parent n none
    child := Function.update t.child n fun _ => none
    header := { t.header with parent := some n, child := fun _ => some n } }

def insert (comp : K → K → Bool) (t : Tree α (K × V)) (n : α) : Option (Tree α (K × V)) := do
  let t ← match t.header.parent with
    | none => some (insertFirst t n)
    | some root => do
      let (_, h) ← find comp t (t.key n) t.fuel root
      let t ← insertUnder comp t t.fuel h n
      let t ← refreshEnd t .left
      let t ← refreshEnd t .right
      splay t.fuel t n
  some (incrementSize t)

/-- `SplayTree::find_hint`, called with a hint that is null. -/
def find_hint (comp : K → K → Bool) (t : Tree α (K × V)) (k : K) :
    Option (Tree α (K × V) × Bool × Option α) :=
  match t.header.parent with
  | none => some (t, false, none)
  | some root => do
    let (found, h) ← find comp t k t.fuel root
    let t ← splay t.fuel t h
    some (t, found, some h)

def find_by_value (comp : K → K → Bool) (t : Tree α (K × V)) (k : K) :
    Option (Tree α (K × V) × Option α) := do
  let (t, found, n) ← find_hint comp t k
  some (t, if found then n else none)

def insert_by_value (A : Allocator α) (comp : K → K → Bool) (t : Tree α (K × V)) (v : K × V) :
    Option (Tree α (K × V) × Bool × α) := do
  let (t, n) ← find_by_value comp t v.1
  match n with
  | some n => some (t, false, n)
  | none =>
    let (t, n) := copy A t v
    let t ← insert comp t n
    some (t, true, n)

def remove_by_value (comp : K → K → Bool) (t : Tree α (K × V)) (k : K) :
    Option (Tree α (K × V) × Nat) :=
  match t.header.parent with
  | none => some (t, 0)
  | some root => do
    let (found, n) ← find comp t k t.fuel root
    if found then
      let t ← remove t n
      some (free t n, 1)
    else some (t, 0)

def lower_bound_by_value (comp : K → K → Bool) (t : Tree α (K × V)) (k : K) :
    Option (Tree α (K × V) × Option α) := do
  let (t, found, n) ← find_hint comp t k
  match n with
  | none => some (t, none)
  | some n =>
    if found then some (t, some n)
    else if compare comp (t.key n) k = -1 then do
      let s ← successor t n
      some (t, s)
    else some (t, some n)

def upper_bound_by_value (comp : K → K → Bool) (t : Tree α (K × V)) (k : K) :
    Option (Tree α (K × V) × Option α) := do
  let (t, found, n) ← find_hint comp t k
  match n with
  | none => some (t, none)
  | some n =>
    if found then do
      let s ← successor t n
      some (t, s)
    else if compare comp (t.key n) k = -1 then do
      let s ← successor t n
      some (t, s)
    else some (t, some n)

@[simp] theorem insertFirst_parent (t : Tree α (K × V)) (n b : α) :
    (insertFirst t n).parent b = if b = n then none else t.parent b :=
  Function.update_apply _ _ _ _

@[simp] theorem insertFirst_child (t : Tree α (K × V)) (n b : α) :
    (insertFirst t n).child b = if b = n then fun _ => none else t.child b :=
  Function.update_apply _ _ _ _

/-! ## The search -/

/-- The keys of the nodes are in order. -/
def Sorted (comp : K → K → Bool) (t : Tree α (K × V)) (l : List α) : Prop :=
  l.Pairwise fun a b => comp (t.key a) (t.key b) = true

/-- The hole at the end of the path has the smaller keys before it and the
greater ones behind it. -/
structure Hole (comp : K → K → Bool) (t : Tree α (K × V)) (k : K) (fs : Path α) : Prop where
  before : ∀ b ∈ Path.before .left fs, comp (t.key b) k = true
  after : ∀ b ∈ Path.after .left fs, comp k (t.key b) = true

/-- What the search finds: the key, or the hole where it belongs. -/
inductive Found (comp : K → K → Bool) (t : Tree α (K × V)) (k : K) (whole : Shape α) :
    Bool × α → Prop
  | found {h : α} (hmem : h ∈ inorder .left whole) (heq : equiv comp k (t.key h) = true) :
      Found comp t k whole (true, h)
  | hole {h : α} {s : Side} {x : Shape α} {gs : Path α} (hwhole : plug (⟨s, h, x⟩ :: gs) .nil = whole)
      (hhole : Hole comp t k (⟨s, h, x⟩ :: gs)) : Found comp t k whole (false, h)

variable {comp : K → K → Bool} {t : Tree α (K × V)} {s : Side} {n : α} {l xs ys : List α}

omit [DecidableEq α] in
theorem find_spec (hc : StrictWeak comp) {k : K} {fuel : Nat} {fs : Path α} {sh : Shape α} {a : α}
    (h : t.Zip fs sh) (ha : sh.root = some a) (hsorted : Sorted comp t (inorder .left (plug fs sh)))
    (hhole : Hole comp t k fs) (hfuel : (inorder .left sh).length ≤ fuel) :
    ∃ r, find comp t k fuel a = some r ∧ Found comp t k (plug fs sh) r := by
  induction fuel generalizing fs sh a with
  | zero =>
    have hmem := mem_of_root .left ha
    rw [length_eq_zero_iff.mp (Nat.le_zero.mp hfuel)] at hmem
    exact absurd hmem not_mem_nil
  | succ fuel ih =>
    obtain ⟨l, r, rfl⟩ := exists_node_of_root ha
    obtain ⟨-, hl, hr, -, -⟩ := h.holds
    have hsub : Sorted comp t (inorder .left l ++ a :: inorder .left r) := by
      rw [inorder_plug] at hsorted
      exact (pairwise_append.mp (pairwise_append.mp hsorted).1).2.1
    obtain ⟨-, hcons, hlt⟩ := pairwise_append.mp hsub
    have hgt := (pairwise_cons.mp hcons).1
    have hlen : (inorder .left l).length + 1 + (inorder .left r).length ≤ fuel + 1 := by
      rw [inorder, length_append, length_cons] at hfuel
      omega
    cases hka : comp k (t.key a) with
    | true =>
      have hhole' : Hole comp t k (⟨.left, a, r⟩ :: fs) := by
        refine ⟨fun b hb => hhole.before b (by simpa [Path.before] using hb), fun b hb => ?_⟩
        simp only [Path.after, if_true, cons_append, mem_cons, mem_append] at hb
        rcases hb with rfl | hb | hb
        · exact hka
        · exact hc.trans _ _ _ hka (hgt b hb)
        · exact hhole.after b hb
      have hstep : find comp t k (fuel + 1) a = match l.root with
          | none => some (false, a)
          | some c => find comp t k fuel c := by
        simp [find, compare, hka, hl]
      rw [hstep]
      cases hroot : l.root with
      | none =>
        refine ⟨_, rfl, .hole ?_ hhole'⟩
        rw [eq_nil_of_root hroot]
        rfl
      | some c =>
        have hdown : t.Zip (⟨.left, a, r⟩ :: fs) l := (zip_cons_iff ⟨.left, a, r⟩).mpr h
        have hrec := ih hdown hroot hsorted hhole' (by omega)
        exact hrec
    | false =>
      cases hak : comp (t.key a) k with
      | true =>
        have hhole' : Hole comp t k (⟨.right, a, l⟩ :: fs) := by
          refine ⟨fun b hb => ?_, fun b hb => hhole.after b (by simpa [Path.after] using hb)⟩
          simp only [Path.before, reduceCtorEq, if_false, mem_append, mem_singleton] at hb
          rcases hb with hb | hb | rfl
          · exact hhole.before b hb
          · exact hc.trans _ _ _ (hlt b hb a mem_cons_self) hak
          · exact hak
        have hstep : find comp t k (fuel + 1) a = match r.root with
            | none => some (false, a)
            | some c => find comp t k fuel c := by
          simp [find, compare, hka, hak, hr]
        rw [hstep]
        cases hroot : r.root with
        | none =>
          refine ⟨_, rfl, .hole ?_ hhole'⟩
          rw [eq_nil_of_root hroot]
          rfl
        | some c =>
          have hdown : t.Zip (⟨.right, a, l⟩ :: fs) r := (zip_cons_iff ⟨.right, a, l⟩).mpr h
          have hrec := ih hdown hroot hsorted hhole' (by omega)
          exact hrec
      | false =>
        refine ⟨(true, a), ?_, .found ?_ (equiv_iff.mpr ⟨hka, hak⟩)⟩
        · simp [find, compare, hka, hak]
        · rw [inorder_plug, inorder]
          simp

/-! ## Insertion -/

theorem insertUnder_spec (hc : StrictWeak comp) {h : α} {x : Shape α} {gs : Path α}
    (hzip : t.Zip (⟨s, h, x⟩ :: gs) .nil) (hhole : Hole comp t (t.key n) (⟨s, h, x⟩ :: gs))
    (hn : n ∉ nodes (⟨s, h, x⟩ :: gs)) (hchild : ∀ d, t.child n d = none) :
    ∃ t', (∀ fuel, insertUnder comp t (fuel + 1) h n = some t') ∧
      t'.Zip (⟨s, h, x⟩ :: gs) (.node .nil n .nil) ∧
      Relinks (n :: nodes (⟨s, h, x⟩ :: gs)) t t' := by
  obtain ⟨hpar, hside, hflip, hx, hup⟩ := hzip.around
  dsimp only at hpar hside hflip hx hup
  have hnodup : (h :: (inorder .left x ++ nodes gs)).Nodup := hzip.nodup
  obtain ⟨hnot, -⟩ := nodup_cons.mp hnodup
  have hnh : n ≠ h := fun heq => hn (heq ▸ mem_cons_self)
  have hdir : (if 0 > compare comp (t.key n) (t.key h) then Side.left else Side.right) = s := by
    cases s with
    | left =>
      have hlt := hhole.after h (by simp [Path.after])
      simp [compare, hlt]
    | right =>
      have hgt := hhole.before h (by simp [Path.before])
      simp [compare, hgt, hc.asymm hgt]
  let t' := setParent (setChild t h s (some n)) n (some h)
  have hrest : ∀ a ∈ inorder .left x ++ nodes gs, a ≠ h ∧ a ≠ n := fun a ha =>
    ⟨fun heq => hnot (heq ▸ ha), fun heq => hn (heq ▸ mem_cons_of_mem _ ha)⟩
  have hparent : ∀ a, a ≠ n → t'.parent a = t.parent a := by
    intro a ha
    simp [t', ha]
  have hchild' : ∀ a, a ≠ h → t'.child a = t.child a := by
    intro a ha
    funext d
    simp [t', ha]
  refine ⟨t', ?_, ⟨⟨?_, ?_, ?_, ?_, ?_⟩, ⟨?_, ?_, ?_, trivial, trivial⟩, ?_⟩, ?_⟩
  · intro fuel
    rw [insertUnder, hdir, hside]
    rfl
  · rw [hparent h (Ne.symm hnh)]
    exact hpar
  · simp [t']
  · simp [t', hflip]
  · exact hx.congr (fun a ha => hparent a (hrest a (mem_append_left _ ha)).2)
      fun a ha => hchild' a (hrest a (mem_append_left _ ha)).1
  · exact hup.congr (fun a ha => hparent a (hrest a (mem_append_right _ ha)).2)
      fun a ha => hchild' a (hrest a (mem_append_right _ ha)).1
  · simp [t']
  · simp [t', hnh, hchild]
  · simp [t', hnh, hchild]
  · exact nodup_cons.mpr ⟨hn, hnodup⟩
  · exact (Relinks.setChild (mem_cons_of_mem _ mem_cons_self) _ _).trans
      (.setParent mem_cons_self _)

omit [DecidableEq α] in
theorem farthest_first {sh : Shape α} {b : α} {zs : List α} (h : t.Holds sh)
    (hb : inorder s sh = b :: zs) : farthest t s t.fuel b = some b := by
  have hmem : b ∈ inorder .left sh := by
    rw [mem_inorder_iff .left s, hb]
    exact mem_cons_self
  obtain ⟨fs, l, r, rfl⟩ := exists_plug hmem
  obtain ⟨y, x, hjoin⟩ := exists_join s l b r
  have hzip : t.Zip fs (.node l b r) := zip_plug_iff.mp h.zip
  rw [hjoin] at hzip hb
  obtain ⟨-, hy, -, -, -⟩ := (holds_join _ _ _).mp hzip.holds
  have hsplit : (before s fs ++ inorder s y) ++ b :: (inorder s x ++ after s fs) = [] ++ b :: zs := by
    rw [nil_append, ← hb, inorder_plug, inorder_join]
    simp
  have hnodup : (inorder s (plug fs (join s y b x))).Nodup := by
    rw [← hjoin]
    exact (inorder_perm s _).nodup_iff.mpr h.nodup
  have hnil := (split_unique hsplit (by rw [hsplit, nil_append, ← hb]; exact hnodup)).1
  have hroot : y.root = none := by
    cases hroot : y.root with
    | none => rfl
    | some c =>
      have hmem := mem_of_root s hroot
      rw [(append_eq_nil_iff.mp hnil).2] at hmem
      exact absurd hmem not_mem_nil
  rw [Tree.fuel, farthest, hy, hroot]

omit [DecidableEq α] in
/-- With a new leaf in the tree, the first node is found from the node that
was the first. -/
theorem refreshEnd_spec {d : Side} {h : α} {x : Shape α} {gs : Path α}
    (hholds : t.Holds (plug (⟨d, h, x⟩ :: gs) (.node .nil n .nil)))
    (hend : t.header.child s = (before s (⟨d, h, x⟩ :: gs) ++ after s (⟨d, h, x⟩ :: gs)).head?) :
    refreshEnd t s =
      some (setEnd t s (before s (⟨d, h, x⟩ :: gs) ++ n :: after s (⟨d, h, x⟩ :: gs)).head?) := by
  have hall : inorder s (plug (⟨d, h, x⟩ :: gs) (.node .nil n .nil)) =
      before s (⟨d, h, x⟩ :: gs) ++ n :: after s (⟨d, h, x⟩ :: gs) := by
    rw [inorder_plug, show Shape.node .nil n .nil = join s .nil n .nil by cases s <;> rfl,
      inorder_join]
    simp
  cases hbefore : before s (⟨d, h, x⟩ :: gs) with
  | cons b bs =>
    rw [hbefore] at hend hall
    have hb : t.header.child s = some b := hend
    have hfar : farthest t s t.fuel b = some b := farthest_first hholds hall
    simp only [refreshEnd, hb, hfar, Option.bind_eq_bind, Option.bind_some]
    rfl
  | nil =>
    rw [hbefore] at hend
    -- The hole is on side `s` of the node that was the first.
    obtain ⟨hgs, hif⟩ := append_eq_nil_iff.mp (show before s gs ++ _ = [] from hbefore)
    have hd : d = s := by
      by_contra hne
      rw [if_neg (show ¬(⟨d, h, x⟩ : Frame α).side = s from hne)] at hif
      exact absurd hif (by simp)
    subst hd
    have hb : t.header.child d = some h := by
      rw [hend]
      simp [Path.after]
    have hzip : t.Zip gs (join d (.node .nil n .nil) h x) :=
      (zip_cons_iff ⟨d, h, x⟩).mp (zip_plug_iff.mp hholds.zip)
    have hlen : (inorder d (join d (.node .nil n .nil) h x)).length ≤ t.fuel := by
      have hholds' : t.Holds (plug gs (join d (.node .nil n .nil) h x)) := hholds
      have hlt := hholds'.plug_lt_fuel
      rw [(inorder_perm d _).length_eq]
      omega
    have hfar : farthest t d t.fuel h = some n := by
      rw [farthest_spec hzip.holds (root_join _ _ _ _) hlen, inorder_join]
      cases d <;> rfl
    simp only [refreshEnd, hb, hfar, Option.bind_eq_bind, Option.bind_some]
    rfl

/-- A node whose key is not in the tree goes between the smaller keys and the
greater ones. -/
theorem Contains.insert (hc : StrictWeak comp) (h : Contains t l) (hsorted : Sorted comp t l)
    (hn : n ∉ l) (hlive : n ∈ t.live) (hchild : ∀ d, t.child n d = none)
    (habsent : ∀ b ∈ l, equiv comp (t.key n) (t.key b) = false) :
    ∃ t' xs ys, SplayTree.insert comp t n = some t' ∧ l = xs ++ ys ∧
      (∀ b ∈ xs, comp (t.key b) (t.key n) = true) ∧
      (∀ b ∈ ys, comp (t.key n) (t.key b) = true) ∧
      Contains t' (xs ++ n :: ys) ∧ Touches (n :: l) t t' ∧ t'.data = t.data ∧
      t'.live = t.live := by
  obtain ⟨sh, hsh, rfl⟩ := h
  have hroot : t.header.parent = sh.root := hsh.zip.around
  cases hsroot : sh.root with
  | none =>
    obtain rfl := eq_nil_of_root hsroot
    let t' := incrementSize (insertFirst t n)
    refine ⟨t', [], [], ?_, rfl, fun b hb => absurd hb not_mem_nil,
      fun b hb => absurd hb not_mem_nil, ⟨.node .nil n .nil, ⟨⟨⟨rfl, ?_, ?_⟩, ?_⟩, ?_, ?_⟩, rfl⟩,
      ⟨?_, ?_, fun _ _ => rfl, fun _ _ => Iff.rfl⟩, rfl, rfl⟩
    · simp only [SplayTree.insert, hroot, hsroot, Option.bind_eq_bind, Option.bind_some, t']
    · refine ⟨?_, ?_, ?_, trivial, trivial⟩ <;> simp [t', incrementSize, insertFirst]
    · exact nodup_cons.mpr ⟨not_mem_nil, .nil⟩
    · intro a ha
      rw [mem_singleton.mp ha]
      exact hlive
    · intro s
      cases s <;> rfl
    · show t.header.data + 1 = 1
      rw [hsh.size]
      rfl
    · intro a ha
      simp [t', incrementSize, insertFirst, mem_singleton.not.mp ha]
    · intro a ha
      simp [t', incrementSize, insertFirst, mem_singleton.not.mp ha]
  | some a =>
    have hfuel : (inorder .left sh).length ≤ t.fuel :=
      Nat.le_succ_of_le hsh.length_le
    obtain ⟨r, hfind, hfound⟩ := find_spec (k := t.key n) hc hsh.zip hsroot hsorted
      ⟨fun b hb => absurd hb not_mem_nil, fun b hb => absurd hb not_mem_nil⟩ hfuel
    cases hfound with
    | found hmem heq => exact absurd heq (by simp [habsent _ hmem])
    | @hole h s x gs hwhole hhole =>
      subst hwhole
      let P : Path α := ⟨s, h, x⟩ :: gs
      have hzip : t.Zip P .nil := zip_plug_iff.mp hsh.zip
      have hl : ∀ d, inorder d (plug P .nil) = before d P ++ after d P := fun d => by
        rw [inorder_plug]
        simp
      have hl' : ∀ d, inorder d (plug P (.node .nil n .nil)) = before d P ++ n :: after d P := by
        intro d
        rw [inorder_plug]
        cases d <;> simp [inorder]
      have hnodes : ∀ b, b ∈ nodes P ↔ b ∈ inorder .left (plug P .nil) := fun b =>
        ((inorder_plug_perm P .nil).mem_iff.trans (by simp)).symm
      obtain ⟨t1, hins, hzip1, hrel1⟩ := insertUnder_spec hc hzip hhole
        (fun hmem => hn ((hnodes n).mp hmem)) hchild
      -- The links of the new leaf are in place; the header follows.
      have hholds1 : t1.Holds (plug P (.node .nil n .nil)) := by
        refine ⟨zip_plug_iff.mpr hzip1, fun b hb => ?_⟩
        rw [hrel1.live]
        rw [hl', mem_append, mem_cons] at hb
        rcases hb with hb | rfl | hb
        · exact hsh.live b (by rw [hl]; exact mem_append_left _ hb)
        · exact hlive
        · exact hsh.live b (by rw [hl]; exact mem_append_right _ hb)
      let t2 := setEnd t1 .left (before .left P ++ n :: after .left P).head?
      have hend2 : refreshEnd t1 .left = some t2 := by
        refine refreshEnd_spec hholds1 ?_
        rw [hrel1.ends, hsh.ends, hl]
      let t3 := setEnd t2 .right (before .right P ++ n :: after .right P).head?
      have hend3 : refreshEnd t2 .right = some t3 := by
        refine refreshEnd_spec ⟨hholds1.zip, hholds1.live⟩ ?_
        show t1.header.child .right = _
        rw [hrel1.ends, hsh.ends, hl]
      have hholds3 : t3.Holds (plug P (.node .nil n .nil)) := ⟨hholds1.zip, hholds1.live⟩
      have hfuel3 := hholds3.plug_lt_fuel
      have hlength : P.length < t3.fuel := by omega
      obtain ⟨t4, l', r', hsplay, hzip4, horder, hrel4⟩ :=
        splay_spec (zip_plug_iff.mp hholds3.zip) hlength
      have hkey : ∀ d, inorder d (.node l' n r') = before d P ++ n :: after d P := fun d => by
        rw [horder, hl']
      refine ⟨incrementSize t4, before .left P, after .left P, ?_, hl .left, hhole.before,
        hhole.after, ⟨.node l' n r', ⟨⟨hzip4, fun b hb => ?_⟩, fun d => ?_, ?_⟩, hkey .left⟩,
        ?_, ?_, ?_⟩
      · have hroot' : t.header.parent = some a := hroot.trans hsroot
        simp only [SplayTree.insert, hroot', hfind, Option.bind_eq_bind, Option.bind_some]
        have hins' : insertUnder comp t t.fuel h n = some t1 := hins t.live.length
        simp only [hins', hend2, hend3, hsplay, Option.bind_some]
      · show b ∈ t4.live
        rw [hrel4.live]
        exact hholds3.live b (horder .left ▸ hb)
      · show t4.header.child d = _
        rw [hrel4.ends, hkey]
        cases d <;> rfl
      · show t4.header.data + 1 = _
        rw [hrel4.size, hkey]
        show t1.header.data + 1 = _
        rw [hrel1.size, hsh.size, hl]
        simp only [length_append, length_cons]
        omega
      · have h1 : Touches (n :: inorder .left (plug P .nil)) t t1 :=
          hrel1.touches.mono fun b hb => by
            rcases mem_cons.mp hb with rfl | hb
            · exact mem_cons_self
            · exact mem_cons_of_mem _ ((hnodes b).mp hb)
        have h4 : Touches (n :: inorder .left (plug P .nil)) t3 t4 :=
          hrel4.touches.mono fun b hb => by
            rw [hl', mem_append, mem_cons] at hb
            rw [hl, mem_cons, mem_append]
            tauto
        exact (h1.trans ⟨h4.parent, h4.child, h4.data, h4.live⟩)
      · show t4.data = t.data
        rw [hrel4.data]
        exact hrel1.data
      · show t4.live = t.live
        rw [hrel4.live]
        exact hrel1.live

/-! ## Lookups -/

/-- Where a search ends: at the key, or at a neighbour of the place where the
key belongs. -/
inductive Ends (found : Bool) (n : α) (xs mid ys : List α) : Prop
  | found (h : found = true) (hmid : mid = [n])
  | last (h : found = false) (hmid : mid = []) (us : List α) (hxs : xs = us ++ [n])
  | first (h : found = false) (hmid : mid = []) (us : List α) (hys : ys = n :: us)

omit [DecidableEq α] in
theorem Contains.find (hc : StrictWeak comp) (h : Contains t l) (hsorted : Sorted comp t l) (k : K)
    {root : α} (hroot : t.header.parent = some root) :
    ∃ found n xs mid ys, SplayTree.find comp t k t.fuel root = some (found, n) ∧
      l = xs ++ mid ++ ys ∧ Divides comp t.key k xs mid ys ∧ Ends found n xs mid ys := by
  have hfuel := h.length_lt_fuel
  obtain ⟨sh, hsh, rfl⟩ := h
  have hshroot : sh.root = some root := (show t.header.parent = sh.root from hsh.zip.around) ▸ hroot
  obtain ⟨⟨found, n⟩, hfind, hfound⟩ := find_spec (k := k) hc hsh.zip hshroot hsorted
    ⟨fun b hb => absurd hb not_mem_nil, fun b hb => absurd hb not_mem_nil⟩
    (Nat.le_of_lt hfuel)
  cases hfound with
  | found hmem heq =>
    obtain ⟨xs, ys, hsplit⟩ := append_of_mem hmem
    refine ⟨true, n, xs, [n], ys, hfind, ?_, ?_, .found rfl rfl⟩
    · rw [show plug [] sh = sh from rfl] at hsplit
      rw [hsplit]
      simp
    · exact .of_split hc (by rw [← hsplit]; exact hsorted) heq
  | @hole h s x gs hwhole hhole =>
    have hl : inorder .left sh =
        before .left (⟨s, n, x⟩ :: gs) ++ [] ++ after .left (⟨s, n, x⟩ :: gs) := by
      rw [show sh = plug (⟨s, n, x⟩ :: gs) .nil from hwhole.symm, inorder_plug]
      rfl
    refine ⟨false, n, _, [], _, hfind, hl,
      ⟨hhole.before, fun b hb => absurd hb not_mem_nil, hhole.after⟩, ?_⟩
    cases s with
    | left => exact .first rfl rfl (inorder .left x ++ after .left gs) (by simp [Path.after])
    | right =>
      exact .last rfl rfl (before .left gs ++ inorder .left x) (by simp [Path.before])

omit [DecidableEq α] in
theorem Ends.mem {found : Bool} {mid : List α} (h : Ends found n xs mid ys) :
    n ∈ xs ++ mid ++ ys := by
  cases h with
  | found _ hmid => simp [hmid]
  | last _ _ us hxs => simp [hxs]
  | first _ _ us hys => simp [hys]

omit [DecidableEq α] in
theorem Ends.mid_eq {found : Bool} {mid : List α} (h : Ends found n xs mid ys) :
    mid = if found then [n] else [] := by
  cases h <;> simp [*]

theorem Contains.find_hint (hc : StrictWeak comp) (h : Contains t l) (hsorted : Sorted comp t l)
    (k : K) :
    (l = [] ∧ SplayTree.find_hint comp t k = some (t, false, none)) ∨
      ∃ t' found n xs mid ys, SplayTree.find_hint comp t k = some (t', found, some n) ∧
        l = xs ++ mid ++ ys ∧ Divides comp t.key k xs mid ys ∧ Ends found n xs mid ys ∧
        Contains t' l ∧ Relinks l t t' := by
  cases hroot : t.header.parent with
  | none => exact .inl ⟨h.root_eq_none_iff.mp hroot, by simp only [SplayTree.find_hint, hroot]⟩
  | some root =>
    obtain ⟨found, n, xs, mid, ys, hfind, rfl, hdiv, hends⟩ := h.find hc hsorted k hroot
    obtain ⟨t', hsplay, hcontains, hrel⟩ := h.splay hends.mem
    refine .inr ⟨t', found, n, xs, mid, ys, ?_, rfl, hdiv, hends, hcontains, hrel⟩
    simp only [SplayTree.find_hint, hroot, hfind, hsplay, Option.bind_eq_bind, Option.bind_some]

omit [DecidableEq α] in
theorem Relinks.key_eq {t' : Tree α (K × V)} (h : Relinks l t t') :
    t'.key = t.key := by
  funext a
  rw [Tree.key, h.data, Tree.key]

theorem Contains.find_by_value (hc : StrictWeak comp) (h : Contains t l) (hsorted : Sorted comp t l)
    (k : K) :
    ∃ t', SplayTree.find_by_value comp t k =
        some (t', l.find? fun a => equiv comp k (t.key a)) ∧
      Contains t' l ∧ Relinks l t t' := by
  rcases h.find_hint hc hsorted k with ⟨rfl, hhint⟩ |
      ⟨t', found, n, xs, mid, ys, hhint, rfl, hdiv, hends, hcontains, hrel⟩
  · refine ⟨t, ?_, h, .refl _ t⟩
    simp [SplayTree.find_by_value, hhint]
  · refine ⟨t', ?_, hcontains, hrel⟩
    rw [hdiv.find?_equiv]
    simp only [SplayTree.find_by_value, hhint, Option.bind_eq_bind, Option.bind_some]
    obtain rfl := hends.mid_eq
    cases found <;> simp

theorem compare_eq_neg_one_iff (comp : K → K → Bool) (k1 k2 : K) :
    compare comp k1 k2 = -1 ↔ comp k1 k2 = true := by
  cases h : comp k1 k2 <;> cases h' : comp k2 k1 <;> simp [compare, h, h']

/-- A search that does not find the key ends beside its place, and the first node
behind the key is where it ended or the successor. -/
theorem Contains.first_behind (hc : StrictWeak comp) (h : Contains t (xs ++ [] ++ ys)) {k : K}
    (hdiv : Divides comp t.key k xs [] ys) (hends : Ends false n xs [] ys) :
    (if compare comp (t.key n) k = -1 then
        (SplayTree.successor t n).bind fun s => some (t, s)
      else some (t, some n)) = some (t, ys.head?) := by
  cases hends with
  | found hf => exact absurd hf Bool.false_ne_true
  | last _ _ us hxs =>
    subst hxs
    have hlt : compare comp (t.key n) k = -1 :=
      (compare_eq_neg_one_iff comp _ k).mpr (hdiv.lt n (by simp))
    have hsplit : Contains t (us ++ n :: ys) := by simpa using h
    rw [if_pos hlt, hsplit.successor, Option.bind_some]
  | first _ _ us hys =>
    subst hys
    have hge : compare comp (t.key n) k ≠ -1 := by
      rw [ne_eq, compare_eq_neg_one_iff]
      simp [hc.asymm (hdiv.gt n mem_cons_self)]
    rw [if_neg hge, head?_cons]

/-- `lower_bound_by_value` finds the first node that is not before the key. -/
theorem Contains.lower_bound_by_value (hc : StrictWeak comp) (h : Contains t l)
    (hsorted : Sorted comp t l) (k : K) :
    ∃ t', SplayTree.lower_bound_by_value comp t k =
        some (t', l.find? fun a => !comp (t.key a) k) ∧
      Contains t' l ∧ Relinks l t t' := by
  rcases h.find_hint hc hsorted k with ⟨rfl, hhint⟩ |
      ⟨t', found, n, xs, mid, ys, hhint, rfl, hdiv, hends, hcontains, hrel⟩
  · refine ⟨t, ?_, h, .refl _ t⟩
    simp [SplayTree.lower_bound_by_value, hhint]
  · refine ⟨t', ?_, hcontains, hrel⟩
    rw [hdiv.find?_not_lt hc]
    simp only [SplayTree.lower_bound_by_value, hhint, Option.bind_eq_bind, Option.bind_some]
    obtain rfl := hends.mid_eq
    cases found with
    | true => simp
    | false => exact hcontains.first_behind hc (hrel.key_eq ▸ hdiv) hends

theorem Contains.upper_bound_by_value (hc : StrictWeak comp) (h : Contains t l)
    (hsorted : Sorted comp t l) (k : K) :
    ∃ t', SplayTree.upper_bound_by_value comp t k =
        some (t', l.find? fun a => comp k (t.key a)) ∧
      Contains t' l ∧ Relinks l t t' := by
  rcases h.find_hint hc hsorted k with ⟨rfl, hhint⟩ |
      ⟨t', found, n, xs, mid, ys, hhint, rfl, hdiv, hends, hcontains, hrel⟩
  · refine ⟨t, ?_, h, .refl _ t⟩
    simp [SplayTree.upper_bound_by_value, hhint]
  · refine ⟨t', ?_, hcontains, hrel⟩
    rw [hdiv.find?_gt hc]
    simp only [SplayTree.upper_bound_by_value, hhint, Option.bind_eq_bind, Option.bind_some]
    obtain rfl := hends.mid_eq
    cases found with
    | true =>
      have hsplit : Contains t' (xs ++ n :: ys) := by simpa using hcontains
      simp [hsplit.successor]
    | false => exact hcontains.first_behind hc (hrel.key_eq ▸ hdiv) hends

end Hostboot.Util.SplayTree
