import Hostboot.Lib.LinkedRing
import Mathlib.Logic.Function.Basic

/-!
# `std::list`

The nodes of a list of `src/include/list` are a ring through a sentinel, the node of
the list object itself.  An iterator is a pointer to a node, and `end()` is the
sentinel.  The node functions write raw pointers, and `splice` is one call of
`merge`.
-/

namespace Hostboot.Util.StlList

open Hostboot.Lib List
open Function (update update_apply update_eq_self update_idem update_of_ne update_self)

variable {α ι : Type*} [DecidableEq α]

/-! ## The functions of the source -/

/-- The pointers of all nodes. -/
@[ext]
structure Nodes (α : Type*) where
  iv_next : α → α
  iv_prev : α → α

namespace Nodes

/-- `n.iv_next = p`. -/
def setNext (m : Nodes α) (n p : α) : Nodes α := { m with iv_next := update m.iv_next n p }

/-- `n.iv_prev = p`. -/
def setPrev (m : Nodes α) (n p : α) : Nodes α := { m with iv_prev := update m.iv_prev n p }

def reset (m : Nodes α) (this : α) : Nodes α := (m.setNext this this).setPrev this this

def link (m : Nodes α) (this i_node : α) : Nodes α :=
  let m := m.setNext this i_node
  let m := m.setPrev this (m.iv_prev i_node)
  let m := m.setPrev i_node this
  m.setNext (m.iv_prev this) this

def unlink (m : Nodes α) (this : α) : Nodes α :=
  let m := m.setNext (m.iv_prev this) (m.iv_next this)
  let m := m.setPrev (m.iv_next this) (m.iv_prev this)
  m.reset this

def merge (m : Nodes α) (this i_first i_last : α) : Nodes α :=
  let nodeP := m.iv_prev this
  let m := m.setNext (m.iv_prev i_first) (m.iv_next i_last)
  let m := m.setPrev (m.iv_next i_last) (m.iv_prev i_first)
  let m := m.setNext nodeP i_first
  let m := m.setPrev this i_last
  let m := m.setPrev i_first nodeP
  m.setNext i_last this

/-- `splice` of a range of a list.  The nodes do not know which list they are in, so
`x` is not read. -/
def splice (m : Nodes α) (pos first last : α) : Nodes α :=
  let last := m.iv_prev last
  m.merge pos first last

end Nodes

/-! ## New connections -/

variable {m m' : Nodes α}

theorem merge_next (m : Nodes α) (pos f g : α) :
    (m.merge pos f g).iv_next = update (update (update m.iv_next
      (m.iv_prev f) (m.iv_next g)) (m.iv_prev pos) f) g pos :=
  rfl

theorem merge_prev (m : Nodes α) (pos f g : α) :
    (m.merge pos f g).iv_prev = update (update (update m.iv_prev
      (m.iv_next g) (m.iv_prev f)) pos g) f (m.iv_prev pos) := by
  have hread : update m.iv_next (m.iv_prev f) (m.iv_next g) g = m.iv_next g := by
    rw [update_apply]
    split_ifs <;> rfl
  simp only [Nodes.merge, Nodes.setNext, Nodes.setPrev, hread]

theorem merge_empty {a b : α} (hab : Adj m.iv_next m.iv_prev a b) : m.merge b b a = m := by
  have hnext : (m.merge b b a).iv_next = m.iv_next := by
    funext n
    rw [merge_next, hab.1, hab.2, update_idem, update_idem,
      update_apply]
    split_ifs with hn
    · rw [hn]
      exact hab.1.symm
    · rfl
  have hprev : (m.merge b b a).iv_prev = m.iv_prev := by
    funext n
    rw [merge_prev, hab.1, hab.2, update_idem, update_idem,
      update_apply]
    split_ifs with hn
    · rw [hn]
      exact hab.2.symm
    · rfl
  exact Nodes.ext hnext hprev

/-- The nodes of `m'` are connected as those of `m`, but for `a` and `b`, `q` and `f`,
and `g` and `pos`. -/
structure Rewired (m m' : Nodes α) (a b q pos f g : α) : Prop where
  healed : Adj m'.iv_next m'.iv_prev a b
  entry : Adj m'.iv_next m'.iv_prev q f
  exit : Adj m'.iv_next m'.iv_prev g pos
  kept : ∀ x y, Adj m.iv_next m.iv_prev x y → y ≠ b → y ≠ pos → y ≠ f →
    Adj m'.iv_next m'.iv_prev x y

/-- `merge` of the nodes from `f` to `g`, where `pos` stands behind `q`. -/
theorem merge_rewired {a b q pos f g : α} (haf : Adj m.iv_next m.iv_prev a f)
    (hgb : Adj m.iv_next m.iv_prev g b) (hqp : Adj m.iv_next m.iv_prev q pos) (hfb : f ≠ b)
    (hfp : f ≠ pos) (hbp : b ≠ pos) : Rewired m (m.merge pos f g) a b q pos f g := by
  -- Different nodes have different predecessors.
  have haq : a ≠ q := fun heq => hfp (haf.1.symm.trans ((congrArg m.iv_next heq).trans hqp.1))
  have hag : a ≠ g := fun heq => hfb (haf.1.symm.trans ((congrArg m.iv_next heq).trans hgb.1))
  have hqg : q ≠ g := fun heq => hbp (hgb.1.symm.trans ((congrArg m.iv_next heq).symm.trans hqp.1))
  constructor
  · constructor
    · rw [merge_next, update_of_ne hag, hqp.2, update_of_ne haq, haf.2, hgb.1,
        update_self]
    · rw [merge_prev, update_of_ne (Ne.symm hfb), update_of_ne hbp, hgb.1,
        update_self, haf.2]
  · constructor
    · rw [merge_next, update_of_ne hqg, hqp.2, update_self]
    · rw [merge_prev, update_self, hqp.2]
  · constructor
    · rw [merge_next, update_self]
    · rw [merge_prev, update_of_ne (Ne.symm hfp), update_self]
  · rintro x y ⟨hnext, hprev⟩ hyb hyp hyf
    have hxa : x ≠ a := fun heq => hyf (hnext.symm.trans ((congrArg m.iv_next heq).trans haf.1))
    have hxq : x ≠ q := fun heq => hyp (hnext.symm.trans ((congrArg m.iv_next heq).trans hqp.1))
    have hxg : x ≠ g := fun heq => hyb (hnext.symm.trans ((congrArg m.iv_next heq).trans hgb.1))
    constructor
    · rw [merge_next, update_of_ne hxg, hqp.2, update_of_ne hxq, haf.2,
        update_of_ne hxa]
      exact hnext
    · rw [merge_prev, update_of_ne hyf, update_of_ne hyp, hgb.1,
        update_of_ne hyb]
      exact hprev

omit [DecidableEq α] in
/-- A chain is kept, if the connections to its nodes behind the first are. -/
theorem chained_kept {x y z : α} {l : List α}
    (hkept : ∀ u v, Adj m.iv_next m.iv_prev u v → v ≠ x → v ≠ y → v ≠ z →
      Adj m'.iv_next m'.iv_prev u v)
    (hl : Chained m.iv_next m.iv_prev l) (hx : x ∉ l.tail) (hy : y ∉ l.tail)
    (hz : z ∉ l.tail) : Chained m'.iv_next m'.iv_prev l := by
  refine hl.imp_of_mem_tail_imp fun u v _ hv huv => hkept u v huv ?_ ?_ ?_
  · exact fun heq => hx (heq ▸ hv)
  · exact fun heq => hy (heq ▸ hv)
  · exact fun heq => hz (heq ▸ hv)

omit [DecidableEq α] in
theorem exchanged {a e x y : α} {p xs ys z : List α}
    (h : Chained m.iv_next m.iv_prev ((a :: (p ++ x :: xs ++ y :: ys ++ z)) ++ [e]))
    (hnodup : (e :: (p ++ x :: xs ++ y :: ys ++ z)).Nodup)
    (hkept : ∀ u v, Adj m.iv_next m.iv_prev u v → v ≠ x → v ≠ y → v ≠ z.headD e →
      Adj m'.iv_next m'.iv_prev u v)
    (hpy : Adj m'.iv_next m'.iv_prev (p.getLastD a) y)
    (hyx : Adj m'.iv_next m'.iv_prev (ys.getLastD y) x)
    (hxz : Adj m'.iv_next m'.iv_prev (xs.getLastD x) (z.headD e)) :
    Chained m'.iv_next m'.iv_prev ((a :: (p ++ y :: ys ++ x :: xs ++ z)) ++ [e]) := by
  obtain ⟨hp, hxs, hys, hz, -⟩ := chained_segments_iff.mp h
  obtain ⟨hnp, hnxs, hnys, hnz⟩ := starts_notMem hnodup
  refine chained_segments_iff.mpr ⟨?_, ?_, ?_, ?_, hpy, hyx, hxz⟩
  · exact chained_kept hkept hp hnp.1 hnp.2.1 hnp.2.2
  · exact chained_kept hkept hys hnys.1 hnys.2.1 hnys.2.2
  · exact chained_kept hkept hxs hnxs.1 hnxs.2.1 hnxs.2.2
  · exact chained_kept hkept hz hnz.1 hnz.2.1 hnz.2.2

omit [DecidableEq α] in
theorem perm_exchanged (s x y : α) (p xs ys z : List α) :
    (s :: (p ++ x :: xs ++ y :: ys ++ z)).Perm (s :: (p ++ y :: ys ++ x :: xs ++ z)) := by
  refine List.Perm.cons s (List.Perm.append_right z ?_)
  rw [append_assoc, append_assoc]
  exact perm_append_comm.append_left p

omit [DecidableEq α] in
theorem Rewired.untouched {a b q pos f g s : α} {l : List α} (h : Rewired m m' a b q pos f g)
    (hl : LinkedRing m.iv_next m.iv_prev s l) (hb : b ∉ s :: l) (hpos : pos ∉ s :: l)
    (hf : f ∉ s :: l) : LinkedRing m'.iv_next m'.iv_prev s l := by
  have htail : ∀ v, v ∉ s :: l → v ∉ ((s :: l) ++ [s]).tail := by
    intro v hv hmem
    rw [cons_append, tail_cons, mem_append, mem_singleton] at hmem
    exact hv (mem_cons.mpr hmem.symm)
  exact ⟨chained_kept h.kept hl.chained (htail b hb) (htail pos hpos) (htail f hf), hl.nodup⟩

omit [DecidableEq α] in
theorem Rewired.removed {q pos f t : α} {p xs z : List α}
    (h : Rewired m m' (p.getLastD t) (z.headD t) q pos f (xs.getLastD f))
    (hl : LinkedRing m.iv_next m.iv_prev t (p ++ f :: xs ++ z))
    (hpos : pos ∉ t :: (p ++ f :: xs ++ z)) :
    LinkedRing m'.iv_next m'.iv_prev t (p ++ z) ∧ Chained m'.iv_next m'.iv_prev (f :: xs) := by
  obtain ⟨hp, hxs, hz, -⟩ := chained_segment_iff.mp hl.chained
  obtain ⟨hnp, hnxs, hnz⟩ := middle_notMem hl.nodup
  have hposp : pos ∉ p := fun hmem => hpos (by simp [hmem])
  have hposxs : pos ∉ xs := fun hmem => hpos (by simp [hmem])
  have hposz : pos ∉ (z ++ [t]).tail := fun hmem => by
    rcases mem_append.mp (mem_of_mem_tail hmem) with hz | ht
    · exact hpos (by simp [hz])
    · exact hpos (by simp [mem_singleton.mp ht])
  have hchain : Chained m'.iv_next m'.iv_prev ((t :: p) ++ (z ++ [t])) :=
    chained_append_iff.mpr ⟨chained_kept h.kept hp hnp.2 hposp hnp.1,
      chained_kept h.kept hz hnz.2 hposz hnz.1, h.healed⟩
  refine ⟨⟨?_, ?_⟩, chained_kept h.kept hxs hnxs.2 hposxs hnxs.1⟩
  · simpa only [cons_append, append_assoc] using hchain
  · have hsub : (p ++ z).Sublist (p ++ f :: xs ++ z) := by
      rw [append_assoc]
      exact (sublist_append_right _ z).append_left p
    exact (hsub.cons_cons t).nodup hl.nodup

omit [DecidableEq α] in
theorem Rewired.inserted {a b f s : α} {p xs z : List α}
    (h : Rewired m m' a b (p.getLastD s) (z.headD s) f (xs.getLastD f))
    (hl : LinkedRing m.iv_next m.iv_prev s (p ++ z)) (hb : b ∉ s :: (p ++ z))
    (hxs : Chained m'.iv_next m'.iv_prev (f :: xs)) (hnodup : (f :: xs).Nodup)
    (hapart : (s :: (p ++ z)).Disjoint (f :: xs)) :
    LinkedRing m'.iv_next m'.iv_prev s (p ++ f :: xs ++ z) := by
  have hchain : Chained m.iv_next m.iv_prev ((s :: p) ++ (z ++ [s])) := by
    simpa only [cons_append, append_assoc] using hl.chained
  obtain ⟨hp, hz, -⟩ := chained_append_iff.mp hchain
  obtain ⟨hnp, hnz⟩ := start_notMem hl.nodup
  have hf : f ∉ s :: (p ++ z) := fun hmem => hapart hmem mem_cons_self
  have hout : ∀ v, v ∉ s :: (p ++ z) → v ∉ p ∧ v ∉ (z ++ [s]).tail := by
    intro v hv
    refine ⟨fun hmem => hv (by simp [hmem]), fun hmem => ?_⟩
    rcases mem_append.mp (mem_of_mem_tail hmem) with hz | hs
    · exact hv (by simp [hz])
    · exact hv (by simp [mem_singleton.mp hs])
  refine ⟨chained_segment_iff.mpr ⟨?_, hxs, ?_, h.entry, h.exit⟩, ?_⟩
  · exact chained_kept h.kept hp (hout b hb).1 hnp (hout f hf).1
  · exact chained_kept h.kept hz (hout b hb).2 hnz (hout f hf).2
  · have hperm : (s :: (p ++ f :: xs ++ z)).Perm ((s :: (p ++ z)) ++ (f :: xs)) := by
      rw [cons_append, append_assoc, append_assoc]
      exact List.Perm.cons s (perm_append_comm.append_left p)
    exact hperm.nodup_iff.mpr (nodup_append'.mpr ⟨hl.nodup, hnodup, hapart⟩)

theorem moved_within {s f : α} {p xs z l1 l2 : List α}
    (h : LinkedRing m.iv_next m.iv_prev s (p ++ f :: xs ++ z)) (hsplit : p ++ z = l1 ++ l2)
    (hne : l2.headD s ≠ z.headD s) :
    ∃ q, Rewired m (m.merge (l2.headD s) f (xs.getLastD f)) (p.getLastD s) (z.headD s) q
        (l2.headD s) f (xs.getLastD f) ∧
      LinkedRing (m.merge (l2.headD s) f (xs.getLastD f)).iv_next
        (m.merge (l2.headD s) f (xs.getLastD f)).iv_prev s (l1 ++ f :: xs ++ l2) := by
  have hfb : f ≠ z.headD s := middle_ne h.nodup
  rcases append_eq_append_iff.mp hsplit with ⟨c, rfl, rfl⟩ | ⟨c, rfl, rfl⟩
  · -- The position is behind the range.
    cases c with
    | nil => exact absurd rfl hne
    | cons b c =>
      rw [← append_assoc] at h
      obtain ⟨-, -, -, -, hpf, hgb, hqpos⟩ := chained_segments_iff.mp h.chained
      have hfpos : f ≠ l2.headD s := by
        have hnodup := h.nodup
        rw [append_assoc p, cons_append] at hnodup
        exact middle_ne hnodup
      have hw := merge_rewired hpf hgb hqpos hfb hfpos (Ne.symm hne)
      refine ⟨_, hw, ?_⟩
      exact ⟨exchanged h.chained h.nodup
        (fun u v huv hf hb hpos => hw.kept u v huv hb hpos hf) hw.healed hw.entry hw.exit,
        (perm_exchanged s f b p xs c l2).nodup_iff.mp h.nodup⟩
  · -- The position is before the range.
    cases c with
    | nil => exact absurd rfl hne
    | cons x c =>
      obtain ⟨-, -, -, -, hqx, haf, hgb⟩ := chained_segments_iff.mp h.chained
      have hfx : f ≠ x := by
        have hnodup := h.nodup
        rw [append_assoc (l1 ++ x :: c)] at hnodup
        exact (middle_ne hnodup).symm
      have hlast : (l1 ++ x :: c).getLastD s = c.getLastD x := by
        simp only [getLastD_eq_getLast?, getLast?_append, getLast?_cons,
          Option.some_or, Option.getD_some]
      have hw := merge_rewired haf hgb hqx hfb hfx (Ne.symm hne)
      rw [hlast]
      refine ⟨_, hw, ?_⟩
      have hchain := exchanged h.chained h.nodup
        (fun u v huv hpos hf hb => hw.kept u v huv hb hpos hf) hw.entry hw.exit hw.healed
      have hnodup := (perm_exchanged s x f l1 c xs z).nodup_iff.mp h.nodup
      rw [append_assoc (l1 ++ f :: xs)] at hchain hnodup
      exact ⟨hchain, hnodup⟩

/-! ## `splice` -/

variable [DecidableEq ι]

/-- A call of `splice` on the lists `ls`.  The list `x` has the range between `before`
and `after`, and the list `this`, which may be the same, has the position between
`front` and `back` once the range is out. -/
structure SpliceCall (ls : ι → List α) where
  this : ι
  x : ι
  before : List α
  range : List α
  after : List α
  front : List α
  back : List α
  x_eq : ls x = before ++ range ++ after
  this_eq : update ls x (before ++ after) this = front ++ back

namespace SpliceCall

variable {ls : ι → List α} (c : SpliceCall ls) (head : ι → α)

/-- The iterators `pos`, `first` and `last`. -/
def pos : α := c.back.headD (head c.this)

@[inherit_doc pos]
def first : α := (c.range ++ c.after).headD (head c.x)

@[inherit_doc pos]
def last : α := c.after.headD (head c.x)

/-- The lists with the range moved. -/
def result : ι → List α :=
  update (update ls c.x (c.before ++ c.after)) c.this
    (c.front ++ c.range ++ c.back)

/-- The call leaves the lists with the range moved, and each of them a ring. -/
def Right (m : Nodes α) : Prop :=
  LinkedRings (m.splice (c.pos head) (c.first head) (c.last head)).iv_next
    (m.splice (c.pos head) (c.first head) (c.last head)).iv_prev head c.result

variable {c head}

/-- The empty range.  It leaves the nodes as they are where it is at the position, and
else it connects the node before the position with the range. -/
theorem right_iff_of_nil (h : LinkedRings m.iv_next m.iv_prev head ls) (hrange : c.range = []) :
    c.Right head m ↔ c.pos head = c.last head := by
  have hx : ls c.x = c.before ++ c.after := by
    rw [c.x_eq, hrange, append_nil]
  have hthis : ls c.this = c.front ++ c.back := by
    rw [← c.this_eq, ← hx, update_eq_self]
  have hresult : c.result = ls := by
    rw [result, hrange, append_nil, ← hx, update_eq_self, ← hthis,
      update_eq_self]
  have hfirst : c.first head = c.last head := by
    rw [first, last, hrange, nil_append]
  have hab : Adj m.iv_next m.iv_prev _ (c.last head) := (hx ▸ h.ring c.x).adj
  have hqp : Adj m.iv_next m.iv_prev _ (c.pos head) := (hthis ▸ h.ring c.this).adj
  rw [Right, hresult, hfirst, Nodes.splice, hab.2]
  constructor
  · intro hright
    by_contra hne
    have hqp' := (hthis ▸ hright.ring c.this).adj.1
    have hqa : c.front.getLastD (head c.this) ≠ c.before.getLastD (head c.x) := fun heq =>
      hne (hqp.1.symm.trans ((congrArg m.iv_next heq).trans hab.1))
    rw [merge_next, update_of_ne hqa, hqp.2, update_self] at hqp'
    exact hne hqp'.symm
  · intro heq
    rw [heq, merge_empty hab]
    exact h

/-- The lists without the range. -/
def rest (c : SpliceCall ls) : ι → List α := update ls c.x (c.before ++ c.after)

omit [DecidableEq α] in
theorem rest_mem (h : LinkedRings m.iv_next m.iv_prev head ls) {k : ι} {v : α}
    (hv : v ∈ head k :: c.rest k) : v ∉ c.range ∧ v ∈ head k :: ls k := by
  by_cases hk : k = c.x
  · subst hk
    rw [rest, update_self] at hv
    have hnodup := (h.ring c.x).nodup
    rw [c.x_eq] at hnodup ⊢
    have hperm : (head c.x :: (c.before ++ c.range ++ c.after)).Perm
        ((head c.x :: (c.before ++ c.after)) ++ c.range) := by
      rw [cons_append, append_assoc, append_assoc]
      exact List.Perm.cons _ (perm_append_comm.append_left c.before)
    exact ⟨(nodup_append'.mp (hperm.nodup_iff.mp hnodup)).2.2 hv,
      hperm.mem_iff.mpr (mem_append_left _ hv)⟩
  · rw [rest, update_of_ne hk] at hv
    refine ⟨fun hrange => h.apart k c.x hk hv (mem_cons_of_mem _ ?_), hv⟩
    rw [c.x_eq]
    exact mem_append_left _ (mem_append_right _ hrange)

omit [DecidableEq α] in
theorem result_apart (h : LinkedRings m.iv_next m.iv_prev head ls) (i j : ι) (hij : i ≠ j) :
    (head i :: c.result i).Disjoint (head j :: c.result j) := by
  have hmem : ∀ k v, v ∈ head k :: c.result k →
      (v ∈ c.range ∧ k = c.this) ∨ (v ∉ c.range ∧ v ∈ head k :: ls k) := by
    intro k v hv
    by_cases hk : k = c.this
    · by_cases hrange : v ∈ c.range
      · exact Or.inl ⟨hrange, hk⟩
      · refine Or.inr (rest_mem h ?_)
        subst hk
        rw [result, update_self] at hv
        rw [rest, c.this_eq]
        simp only [mem_cons, mem_append] at hv ⊢
        tauto
    · rw [result, update_of_ne hk] at hv
      exact Or.inr (rest_mem h hv)
  intro v hi hj
  rcases hmem i v hi with ⟨hri, hi⟩ | ⟨hri, hi⟩ <;>
    rcases hmem j v hj with ⟨hrj, hj⟩ | ⟨hrj, hj⟩
  · exact hij (hi.trans hj.symm)
  · exact hrj hri
  · exact hri hrj
  · exact h.apart i j hij hi hj

theorem right_iff_of_cons (h : LinkedRings m.iv_next m.iv_prev head ls) {f : α} {xs : List α}
    (hrange : c.range = f :: xs) : c.Right head m ↔ c.pos head ≠ c.last head := by
  have hx : ls c.x = c.before ++ f :: xs ++ c.after := by
    rw [c.x_eq, hrange]
  have hringx : LinkedRing m.iv_next m.iv_prev (head c.x) (c.before ++ f :: xs ++ c.after) :=
    hx ▸ h.ring c.x
  have hfirst : c.first head = f := by
    rw [first, hrange]
    rfl
  obtain ⟨-, -, -, haf, hgb⟩ := chained_segment_iff.mp hringx.chained
  have hg : m.iv_prev (c.last head) = xs.getLastD f := hgb.2
  rw [Right, hfirst, Nodes.splice, hg]
  constructor
  · intro hright heq
    have hring := hright.ring c.this
    rw [result, update_self, hrange] at hring
    obtain ⟨-, -, -, hqf, -⟩ := chained_segment_iff.mp hring.chained
    have hprev := hqf.2
    rw [merge_prev, update_self, heq, hg] at hprev
    -- The range would stand behind its own last node.
    have hmem := getLastD_mem c.front (head c.this)
    rw [← hprev] at hmem
    have hnodup := hring.nodup
    rw [append_assoc, ← cons_append] at hnodup
    exact (nodup_append'.mp hnodup).2.2 hmem
      (mem_append_left _ (getLastD_mem xs f))
  · intro hne
    have hposmem : c.pos head ∈ head c.this :: c.rest c.this := by
      rw [rest, c.this_eq]
      rcases mem_append.mp (headD_mem c.back (head c.this)) with hback | hhead
      · exact mem_cons_of_mem _ (mem_append_right _ hback)
      · rw [pos, mem_singleton.mp hhead]
        exact mem_cons_self
    obtain ⟨hposrange, hposls⟩ := rest_mem h hposmem
    rw [hrange] at hposrange
    have hfp : f ≠ c.pos head := fun heq => hposrange (heq ▸ mem_cons_self)
    have hfb : f ≠ c.last head := middle_ne hringx.nodup
    refine ⟨fun k => ?_, result_apart h⟩
    have hlast : c.last head ∈ head c.x :: ls c.x := by
      rw [hx]
      rcases mem_append.mp (headD_mem c.after (head c.x)) with hafter | hhead
      · exact mem_cons_of_mem _ (mem_append_right _ hafter)
      · rw [last, mem_singleton.mp hhead]
        exact mem_cons_self
    have hfx : f ∈ head c.x :: ls c.x := by simp [hx]
    by_cases hsame : c.this = c.x
    · have hsplit : c.before ++ c.after = c.front ++ c.back := by
        rw [← c.this_eq, hsame, update_self]
      have hpos : c.pos head = c.back.headD (head c.x) := by
        rw [pos, hsame]
      obtain ⟨q, hw, hring⟩ := moved_within hringx hsplit (hpos ▸ hne)
      rw [← hpos] at hw hring
      by_cases hk : k = c.this
      · rw [hk, result, update_self, hrange, hsame]
        exact hring
      · have hkx : k ≠ c.x := hsame ▸ hk
        rw [result, update_of_ne hk, update_of_ne hkx]
        exact hw.untouched (h.ring k) (fun hmem => h.apart k c.x hkx hmem hlast)
          (fun hmem => h.apart k c.this hk hmem hposls) (fun hmem => h.apart k c.x hkx hmem hfx)
    · have hls : ls c.this = c.front ++ c.back := by
        rw [← c.this_eq, update_of_ne hsame]
      have hringthis : LinkedRing m.iv_next m.iv_prev (head c.this) (c.front ++ c.back) :=
        hls ▸ h.ring c.this
      have hw := merge_rewired haf hgb hringthis.adj hfb hfp hne.symm
      have hposx : c.pos head ∉ head c.x :: (c.before ++ f :: xs ++ c.after) := fun hmem =>
        h.apart c.this c.x hsame hposls (hx ▸ hmem)
      obtain ⟨hremoved, hxs⟩ := hw.removed hringx hposx
      by_cases hk : k = c.this
      · rw [hk, result, update_self, hrange]
        refine hw.inserted hringthis ?_ hxs ?_ ?_
        · exact fun hmem => h.apart c.this c.x hsame (hls ▸ hmem) hlast
        · have hnodup := hringx.nodup.of_cons
          rw [append_assoc] at hnodup
          exact hnodup.of_append_right.of_append_left
        · refine fun v hmem hv => h.apart c.this c.x hsame (hls ▸ hmem) ?_
          rw [hx]
          exact mem_cons_of_mem _ (mem_append_left _ (mem_append_right _ hv))
      · rw [result, update_of_ne hk]
        by_cases hkx : k = c.x
        · rw [hkx, update_self]
          exact hremoved
        · rw [update_of_ne hkx]
          exact hw.untouched (h.ring k) (fun hmem => h.apart k c.x hkx hmem hlast)
            (fun hmem => h.apart k c.this hk hmem hposls)
            (fun hmem => h.apart k c.x hkx hmem hfx)

omit [DecidableEq α] in
theorem first_eq_last_iff (h : LinkedRings m.iv_next m.iv_prev head ls) :
    c.first head = c.last head ↔ c.range = [] := by
  cases hrange : c.range with
  | nil =>
    rw [first, last, hrange, nil_append]
    simp
  | cons f xs =>
    have hnodup := (h.ring c.x).nodup
    rw [c.x_eq, hrange] at hnodup
    refine iff_of_false ?_ (cons_ne_nil f xs)
    rw [first, hrange]
    exact middle_ne hnodup

end SpliceCall

/-- `splice` moves the range, and leaves every list a ring, if and only if `first` and
`last` are the same exactly when `pos` and `last` are. -/
theorem splice_iff {head : ι → α} {ls : ι → List α} (h : LinkedRings m.iv_next m.iv_prev head ls)
    (c : SpliceCall ls) :
    c.Right head m ↔ (c.first head = c.last head ↔ c.pos head = c.last head) := by
  rw [SpliceCall.first_eq_last_iff h]
  cases hrange : c.range with
  | nil =>
    rw [SpliceCall.right_iff_of_nil h hrange]
    simp
  | cons f xs =>
    rw [SpliceCall.right_iff_of_cons h hrange]
    simp

/-- Two lists: 1, 2, 3 behind the sentinel 0, and 11, 12 behind the sentinel 10. -/
def twoLists : Nodes Nat where
  iv_next n := [1, 2, 3, 0, 4, 5, 6, 7, 8, 9, 11, 12, 10].getD n n
  iv_prev n := [3, 0, 1, 2, 4, 5, 6, 7, 8, 9, 12, 10, 11].getD n n

def twoHeads (i : Bool) : Nat := if i then 10 else 0

def twoContents (i : Bool) : List Nat := if i then [11, 12] else [1, 2, 3]

theorem twoLists_rings : LinkedRings twoLists.iv_next twoLists.iv_prev twoHeads twoContents where
  ring i := by
    cases i
    · exact ⟨by decide, by decide⟩
    · exact ⟨by decide, by decide⟩
  apart i j hij := by
    cases i <;> cases j
    · exact absurd rfl hij
    · exact disjoint_left.mpr (by decide)
    · exact disjoint_left.mpr (by decide)
    · exact absurd rfl hij

/-- The nodes 1 and 2 go to the end of the other list. -/
def frontToOther : SpliceCall twoContents where
  this := true
  x := false
  before := []
  range := [1, 2]
  after := [3]
  front := [11, 12]
  back := []
  x_eq := rfl
  this_eq := rfl

theorem splice_iff_sample :
    frontToOther.Right twoHeads twoLists ↔
      (frontToOther.first twoHeads = frontToOther.last twoHeads ↔
        frontToOther.pos twoHeads = frontToOther.last twoHeads) :=
  splice_iff twoLists_rings frontToOther

/-- An empty range before the node 3 goes to the front of the other list. -/
def emptyToOther : SpliceCall twoContents :=
  { frontToOther with
    before := [1, 2], range := [], after := [3], front := [], back := [11, 12]
    x_eq := rfl, this_eq := rfl }

/-- The nodes 1 and 2 stay where they are, before the node 3. -/
def frontToItsEnd : SpliceCall twoContents :=
  { frontToOther with
    this := false, front := [], back := [3], this_eq := rfl }

/-- An empty range, and a range that ends at the position, break the rings. -/
theorem splice_of_empty_or_last :
    ¬ emptyToOther.Right twoHeads twoLists ∧ ¬ frontToItsEnd.Right twoHeads twoLists := by
  constructor
  · intro h
    have hchain := (h.ring true).chained
    revert hchain
    decide
  · intro h
    have hchain := (h.ring false).chained
    revert hchain
    decide

end Hostboot.Util.StlList
