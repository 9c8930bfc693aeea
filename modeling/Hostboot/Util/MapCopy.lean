import Hostboot.Util.MapBounds
import Hostboot.Util.SplayClosed
import Hostboot.Util.StlVector

/-!
# Inserting ranges into a map, and copying maps

`Map::insert` of a range has two forms.  For iterators of a map it calls
`SplayTree::insert_range`, which inserts a copy of each node without asking
whether its key is there.  For any other iterators it inserts the values one by
one.  `SplayTree::operator=` clears the tree and inserts the whole other tree as
a range.

The module has four parts:

* the functions of the source;
* a range of new keys, which `insert_range` inserts as it should;
* any range.  `insert_range` counts every node, so it is right only for ranges of
  new keys;
* `operator=` of maps and vectors, which are wrong alike where an object is
  assigned to itself.
-/

namespace Hostboot.Util.StlMap

open Hostboot.Lib Hostboot.Lib.LinkedTree Hostboot.Util.SplayTree List
open Function (update update_eq_self update_idem update_of_ne update_self)

universe u

variable {ι α K V : Type u} [DecidableEq ι] [DecidableEq α]

/-! ## The functions of the source -/

/-- `SplayTree::insert_range`. -/
def insert_range (A : Allocator α) (comp : K → K → Bool) :
    Nat → Tree α (K × V) → Option α → Option α → Option (Tree α (K × V))
  | 0, t, n1, n2 => if n1 = n2 then some t else none
  | fuel + 1, t, n1, n2 =>
    if n1 = n2 then some t
    else do
      let n ← n1
      let t ← SplayTree.insert comp (copy A t (t.data n)).1 (copy A t (t.data n)).2
      let next ← successor t n
      insert_range A comp fuel t next n2

/-- `Map::insert` of the range of iterators of the map `j` that begins `a` steps
behind `begin()` and ends `b` steps behind it. -/
def insertRange (A : Allocator α) (s : System ι α K V) (i j : ι) (a b fuel : Nat) :
    Option (System ι α K V) := do
  let first ← advance s j a (begin s j)
  let last ← advance s j b (begin s j)
  let t ← insert_range A (s.comp i) fuel (s.tree i) first last
  some (s.put i t)

/-- `Map::insert` of a range of any other iterators. -/
def insertEach (A : Allocator α) (i : ι) : System ι α K V → List (K × V) →
    Option (System ι α K V)
  | s, [] => some s
  | s, v :: vs => do
    let (s, _, _) ← insert A s i v
    insertEach A i s vs

/-- `iv_comp = x.iv_comp`. -/
def setComp (s : System ι α K V) (i j : ι) : System ι α K V :=
  { s with maps := update s.maps i { s.maps i with iv_comp := s.comp j } }

/-- `map::operator=`, with `SplayTree::operator=` in it. -/
def assign (A : Allocator α) (s : System ι α K V) (i j : ι) : Option (System ι α K V) := do
  let s := setComp s i j
  let s ← clear s i
  let t ← insert_range A (s.comp i) (s.tree i).fuel (s.tree i) (begin s j) none
  match t.header.child .left with
  | none => some (s.put i t)
  | some n => do
    let t ← splay t.fuel t n
    some (s.put i t)

/-! ## Ranges of new keys -/

omit [DecidableEq α] in
theorem put_tree (s : System ι α K V) (i : ι) : s.put i (s.tree i) = s := by
  show System.mk s.toMem s.data s.live (update s.maps i _) = s
  rw [show ({ s.maps i with iv_tree := (s.tree i).header } : Map α K) = s.maps i from rfl,
    update_eq_self]

omit [DecidableEq α] in
theorem tree_put (s : System ι α K V) (i : ι) (t : Tree α (K × V)) : (s.put i t).tree i = t := by
  simp [System.tree, System.put]

omit [DecidableEq α] in
theorem comp_put (s : System ι α K V) (i j : ι) (t : Tree α (K × V)) :
    (s.put i t).comp j = s.comp j := by
  by_cases hj : j = i
  · subst hj
    simp [System.comp, System.put]
  · simp [System.comp, System.put, hj]

omit [DecidableEq α] in
theorem put_put (s : System ι α K V) (i : ι) (t t' : Tree α (K × V)) :
    (s.put i t).put i t' = s.put i t' := by
  show System.mk _ _ _ (update (update s.maps i _) i _) = System.mk _ _ _ _
  rw [update_idem]
  simp [System.put]

variable {t t' : Tree α (K × V)} {s : System ι α K V} {m : ι → OrderedMap K V} {i j : ι}
  {fuel : Nat}

theorem successor_congr (hparent : t'.parent = t.parent) (hchild : t'.child = t.child)
    (hlive : t'.live = t.live) (n : α) :
    successor t' n = successor t n := by
  have hfuel : t'.fuel = t.fuel := by rw [Tree.fuel, hlive, Tree.fuel]
  have hfar : ∀ fuel s a, farthest t' s fuel a = farthest t s fuel a := by
    intro fuel s
    induction fuel with
    | zero => exact fun a => rfl
    | succ fuel ih =>
      intro a
      rw [farthest, farthest, hchild]
      cases t.child a s with
      | none => rfl
      | some c => exact ih c
  have hclimb : ∀ fuel s a y, climb t' s fuel a y = climb t s fuel a y := by
    intro fuel s
    induction fuel with
    | zero => exact fun a y => by cases y <;> rfl
    | succ fuel ih =>
      intro a y
      cases y with
      | none => rfl
      | some y => rw [climb, climb, hchild, hparent, ih]
  rw [successor, successor, neighbour, neighbour, hchild, hparent, hfuel]
  cases t.child n .right with
  | none => exact hclimb _ _ _ _
  | some c =>
    show (farthest t' _ _ c).map some = (farthest t _ _ c).map some
    rw [hfar]

theorem insert_range_spec (A : Allocator α) {ls : ι → List α} {xs ys zs : List α}
    (h : RefinesBy s m ls) (hij : j ≠ i) (hsplit : ls j = xs ++ (ys ++ zs))
    (hnew : (m i).New (ys.map s.data)) (hfuel : ys.length ≤ fuel) :
    ∃ t' ls', insert_range A (s.comp i) fuel (s.tree i) (ys ++ zs).head? zs.head? = some t' ∧
      RefinesBy (s.put i t') (update m i ((m i).insertAll (ys.map s.data))) ls' ∧
      ls' j = ls j := by
  induction ys generalizing s m ls xs fuel with
  | nil =>
    refine ⟨s.tree i, ls, ?_, ?_, rfl⟩
    · cases fuel <;> cases zs <;> simp [insert_range]
    · rw [put_tree]
      show RefinesBy s (update m i (m i)) ls
      rw [update_eq_self]
      exact h
  | cons a ys ih =>
    cases fuel with
    | zero => exact absurd hfuel (Nat.not_succ_le_zero _)
    | succ fuel =>
      have hnodup := (h.contains j).nodup
      rw [hsplit] at hnodup
      have hne : some a ≠ zs.head? := by
        intro heq
        have ha : a ∈ zs := mem_of_mem_head? heq.symm
        exact (nodup_cons.mp (nodup_append.mp hnodup).2.1).1 (mem_append_right _ ha)
      obtain ⟨hv, hnew'⟩ := OrderedMap.new_cons_iff.mp hnew
      obtain ⟨t1, l1, hinsert, heff, hentries, -, -⟩ := (h.models i).insert_copy A (s.data a) hv
      have h1 := h.put heff hentries (OrderedMap.insert_comp _ _)
      have hlsj : update ls i l1 j = ls j := update_of_ne hij _ _
      have hsplit1 : update ls i l1 j = (xs ++ [a]) ++ (ys ++ zs) := by
        rw [hlsj, hsplit]
        simp
      have hinc := h1.increment_eq (show update ls i l1 j = xs ++ a :: (ys ++ zs) by
        rw [hlsj, hsplit]
        rfl)
      have hsucc : successor t1 a = some (ys ++ zs).head? := by
        have hcongr : successor ((s.put i t1).tree j) a = successor t1 a := by
          refine successor_congr ?_ ?_ ?_ a <;> rfl
        exact hcongr.symm.trans hinc
      -- The entries of the other map are still what they were.
      have hdata : ys.map (s.put i t1).data = ys.map s.data := by
        have hother := h1.entries j
        rw [hlsj, update_of_ne hij, ← h.entries j] at hother
        refine map_congr_left fun b hb => ?_
        have hb' : b ∈ ls j := by
          rw [hsplit]
          simp [hb]
        exact map_inj_left.mp hother b hb'
      obtain ⟨t', ls', hrange, href, hlsj'⟩ := ih h1 hsplit1 (by
        rw [hdata, update_self]
        exact hnew') (Nat.le_of_succ_le_succ hfuel)
      rw [comp_put, tree_put] at hrange
      rw [put_put, update_self, update_idem, hdata] at href
      refine ⟨t', ls', ?_, href, hlsj'.trans hlsj⟩
      have hhead : ((a :: ys) ++ zs).head? = some a := rfl
      have hinsert' : SplayTree.insert (s.comp i) (copy A (s.tree i) ((s.tree i).data a)).1
          (copy A (s.tree i) ((s.tree i).data a)).2 = some t1 := by
        rw [h.comp i]
        exact hinsert
      rw [hhead, insert_range, if_neg hne]
      simp only [hinsert', hsucc, Option.bind_eq_bind, Option.bind_some]
      exact hrange

theorem insertEach_spec (A : Allocator α) (h : Refines s m) (i : ι) (vs : List (K × V)) :
    ∃ s', insertEach A i s vs = some s' ∧
      Refines s' (update m i ((m i).insertAll vs)) := by
  induction vs generalizing s m with
  | nil =>
    refine ⟨s, rfl, ?_⟩
    show Refines s (update m i (m i))
    rw [update_eq_self]
    exact h
  | cons v vs ih =>
    obtain ⟨ls, h⟩ := h
    obtain ⟨s1, n, rc, ls', hinsert, h1, -⟩ := h.insert A i v
    obtain ⟨s', heach, h'⟩ := ih ⟨ls', h1⟩
    rw [update_self, update_idem] at h'
    refine ⟨s', ?_, h'⟩
    simp only [insertEach, hinsert, Option.bind_eq_bind, Option.bind_some, heach]

/-! ## Any range -/

/-- The nodes of the other map are not touched, so every one of them is inserted
and counted. -/
theorem insert_range_size (A : Allocator α) {comp : K → K → Bool} {hd : Header α}
    {l lj xs ys zs : List α} (hwithin : Within (· ∈ l) t)
    (hsrc : Contains { t with header := hd } lj) (hsplit : lj = xs ++ (ys ++ zs))
    (hdisj : ∀ a ∈ lj, a ∉ l)
    (hrange : insert_range A comp fuel t (ys ++ zs).head? zs.head? = some t') :
    t'.header.data = t.header.data + ys.length := by
  induction ys generalizing t l xs fuel with
  | nil =>
    have hsame : insert_range A comp fuel t zs.head? zs.head? = some t := by
      cases fuel <;> cases zs <;> simp [insert_range]
    obtain rfl := Option.some.inj (hsame.symm.trans hrange)
    rfl
  | cons a ys ih =>
    have hne : some a ≠ zs.head? := by
      intro heq
      have hnodup := hsrc.nodup
      rw [hsplit] at hnodup
      have ha : a ∈ zs := mem_of_mem_head? heq.symm
      exact (nodup_cons.mp (nodup_append.mp hnodup).2.1).1 (mem_append_right _ ha)
    have hhead : ((a :: ys) ++ zs).head? = some a := rfl
    cases fuel with
    | zero =>
      rw [hhead, insert_range, if_neg hne] at hrange
      exact absurd hrange (by simp)
    | succ fuel =>
      rw [hhead, insert_range, if_neg hne] at hrange
      simp only [Option.bind_eq_bind, Option.bind_some] at hrange
      obtain ⟨t2, hinsert, hrange⟩ := Option.bind_eq_some_iff.mp hrange
      obtain ⟨next, hnext, hrange⟩ := Option.bind_eq_some_iff.mp hrange
      let n := (copy A t (t.data a)).2
      let t1 := (copy A t (t.data a)).1
      have hn : n ∉ t.live := A.fresh _
      have hnj : n ∉ lj := fun hmem => hn (hsrc.live hmem)
      have hwithin1 : Within (· ∈ n :: l) t1 := by
        refine ⟨fun b hb => mem_cons_of_mem _ (hwithin.root b hb),
          fun s b hb => mem_cons_of_mem _ (hwithin.ends s b hb), fun b hb c hc => ?_,
          fun b hb s c hc => ?_⟩
        · by_cases hbn : b = n
          · subst hbn
            exact absurd ((update_self _ _ _).symm.trans hc) (by simp)
          · have hbl : b ∈ l := (mem_cons.mp hb).resolve_left hbn
            exact mem_cons_of_mem _ (hwithin.parent b hbl c
              ((update_of_ne hbn _ _).symm.trans hc))
        · by_cases hbn : b = n
          · subst hbn
            exact absurd ((congrFun (update_self _ _ _) s).symm.trans hc) (by simp)
          · have hbl : b ∈ l := (mem_cons.mp hb).resolve_left hbn
            exact mem_cons_of_mem _ (hwithin.child b hbl s c
              ((congrFun (update_of_ne hbn _ _) s).symm.trans hc))
      obtain ⟨hwithin2, hparent, hchild, hdata, hlive, hsize⟩ :=
        insert_staysIn hwithin1 mem_cons_self hinsert
      have htouch : Touches (n :: l) ({ t with header := hd } : Tree α (K × V))
          { t2 with header := hd } := by
        have hbn : ∀ b, b ∉ n :: l → b ≠ n := fun b hb heq => hb (heq ▸ mem_cons_self)
        refine ⟨fun b hb => ?_, fun b hb => ?_, fun b hb => ?_, fun b hb => ?_⟩
        · exact (hparent b hb).trans (update_of_ne (hbn b hb) _ _)
        · exact (hchild b hb).trans (update_of_ne (hbn b hb) _ _)
        · exact (congrFun hdata b).trans (update_of_ne (hbn b hb) _ _)
        · show b ∈ t2.live ↔ b ∈ t.live
          rw [hlive]
          exact mem_cons.trans (or_iff_right (hbn b hb))
      have hdisj2 : ∀ b ∈ lj, b ∉ n :: l := fun b hb hmem =>
        (mem_cons.mp hmem).elim (fun heq => hnj (heq ▸ hb)) (hdisj b hb)
      have hsrc2 : Contains ({ t2 with header := hd } : Tree α (K × V)) lj :=
        hsrc.of_touches htouch rfl hdisj2
      have hsucc : successor t2 a = some (ys ++ zs).head? := by
        have hsplit' : Contains ({ t2 with header := hd } : Tree α (K × V))
            (xs ++ a :: (ys ++ zs)) := by
          rw [hsplit] at hsrc2
          exact hsrc2
        refine Eq.trans ?_ hsplit'.successor
        refine successor_congr ?_ ?_ ?_ a <;> rfl
      obtain rfl := Option.some.inj (hsucc.symm.trans hnext)
      have hrec := ih hwithin2 hsrc2 (show lj = (xs ++ [a]) ++ (ys ++ zs) by rw [hsplit]; simp)
        hdisj2 hrange
      have hsize' : t2.header.data = t.header.data + 1 := hsize
      rw [hrec, hsize', length_cons]
      omega

theorem insert_range_le (A : Allocator α) {comp : K → K → Bool} {n1 n2 : Option α}
    (hrange : insert_range A comp fuel t n1 n2 = some t') :
    t.header.data + (if n1 = n2 then 0 else 1) ≤ t'.header.data := by
  induction fuel generalizing t n1 with
  | zero =>
    rw [insert_range] at hrange
    split at hrange
    · rename_i heq
      rw [if_pos heq, ← Option.some.inj hrange]
      exact Nat.le_refl _
    · exact absurd hrange (by simp)
  | succ fuel ih =>
    rw [insert_range] at hrange
    split at hrange
    · rename_i heq
      rw [if_pos heq, ← Option.some.inj hrange]
      exact Nat.le_refl _
    · rename_i hne
      cases n1 with
      | none => exact absurd hrange (by simp)
      | some n =>
        simp only [Option.bind_eq_bind, Option.bind_some] at hrange
        obtain ⟨t2, hinsert, hrange⟩ := Option.bind_eq_some_iff.mp hrange
        obtain ⟨next, -, hrange⟩ := Option.bind_eq_some_iff.mp hrange
        have hall : Within (fun _ : α => True) (copy A t (t.data n)).1 :=
          ⟨fun _ _ => trivial, fun _ _ _ => trivial, fun _ _ _ _ => trivial,
            fun _ _ _ _ _ => trivial⟩
        have hsize : t2.header.data = t.header.data + 1 :=
          (insert_staysIn hall trivial hinsert).2.2.2.2.2
        have hrec := ih hrange
        rw [if_neg hne]
        omega

/-- The entries of a range of a map. -/
def rangeOf (m : OrderedMap K V) (a b : Nat) : List (K × V) := (m.entries.drop a).take (b - a)

/-- The insertion of a range of iterators of the map `j` leaves the map `i` as if
the entries had been inserted one by one. -/
def RangeRight (A : Allocator α) (s : System ι α K V) (m : ι → OrderedMap K V) (i j : ι)
    (a b : Nat) : Prop :=
  ∃ fuel s', insertRange A s i j a b fuel = some s' ∧
    Refines s' (update m i ((m i).insertAll (rangeOf (m j) a b)))

theorem rangeRight_iff (A : Allocator α) (h : Refines s m) (i j : ι) {a b : Nat} (hab : a ≤ b) :
    RangeRight A s m i j a b ↔ (m i).New (rangeOf (m j) a b) := by
  obtain ⟨ls, h⟩ := h
  let ys := ((ls j).drop a).take (b - a)
  let zs := (ls j).drop b
  have hyz : ys ++ zs = (ls j).drop a := by
    have hzs : zs = ((ls j).drop a).drop (b - a) := by
      show (ls j).drop b = _
      rw [drop_drop, Nat.add_sub_cancel' hab]
    rw [hzs]
    exact take_append_drop _ _
  have hsplit : ls j = (ls j).take a ++ (ys ++ zs) := by
    rw [hyz, take_append_drop]
  have hentries : ys.map s.data = rangeOf (m j) a b := by
    rw [rangeOf, ← h.entries j, map_take, map_drop]
  have hadvance : ∀ c, advance s j c (begin s j) = some ((ls j).drop c).head? := by
    intro c
    rw [h.begin_eq, h.advance_eq (show ls j = [] ++ ls j from rfl), head?_drop]
  have hcall : ∀ fuel, insertRange A s i j a b fuel =
      (insert_range A (s.comp i) fuel (s.tree i) (ys ++ zs).head? zs.head?).bind
        fun t => some (s.put i t) := by
    intro fuel
    simp only [insertRange, hadvance, Option.bind_eq_bind, Option.bind_some, hyz]
    rfl
  constructor
  · rintro ⟨fuel, s', hs', ls', h'⟩
    rw [hcall] at hs'
    obtain ⟨t', hrange, hput⟩ := Option.bind_eq_some_iff.mp hs'
    obtain rfl := Option.some.inj hput
    -- The header counts the entries of the map.
    have hcount : t'.header.data =
        ((m i).insertAll (rangeOf (m j) a b)).entries.length := by
      have hsize := (h'.contains i).size
      have hlen := congrArg List.length (h'.entries i)
      rw [tree_put] at hsize
      rw [length_map, update_self] at hlen
      rw [hsize, hlen]
    have hold : (s.tree i).header.data = (m i).entries.length := by
      rw [(h.contains i).size, ← h.entries i, length_map]
    by_cases hji : j = i
    · subst hji
      have hpresent : (m j).insertAll (rangeOf (m j) a b) = m j :=
        OrderedMap.insertAll_of_find fun v hv =>
          OrderedMap.find_ne_none_of_mem (mem_of_mem_drop (mem_of_mem_take hv))
      have hle := insert_range_le A hrange
      rw [hcount, hpresent, hold] at hle
      -- Nothing was counted, so the range was empty.
      have hnil : ys = [] := by
        cases hys : ys with
        | nil => rfl
        | cons c cs =>
          have hne : (ys ++ zs).head? ≠ zs.head? := by
            rw [hys]
            intro heq
            have hnodup := (h.contains j).nodup
            rw [hsplit, hys] at hnodup
            have hc : c ∈ zs := mem_of_mem_head? heq.symm
            exact (nodup_cons.mp (nodup_append.mp hnodup).2.1).1
              (mem_append_right _ hc)
          rw [if_neg hne] at hle
          omega
      rw [← hentries, hnil]
      exact ⟨fun v hv => absurd hv not_mem_nil, .nil⟩
    · have hsize := insert_range_size A (h.contains i).within (h.contains j) hsplit
        (h.disjoint j i hji) hrange
      rw [hcount, hold] at hsize
      refine (OrderedMap.length_insertAll_eq_iff _ _).mp ?_
      rw [hsize, ← hentries, length_map]
  · intro hnew
    by_cases hji : j = i
    · subst hji
      -- Every entry of the range is in the map, so the range is empty.
      have hnil : ys = [] := by
        cases hys : ys with
        | nil => rfl
        | cons c cs =>
          have hmem : s.data c ∈ rangeOf (m j) a b := by
            rw [← hentries, hys]
            exact mem_cons_self
          have hpresent : (m j).find (s.data c).1 ≠ none :=
            OrderedMap.find_ne_none_of_mem (mem_of_mem_drop (mem_of_mem_take hmem))
          exact absurd (hnew.1 _ hmem) hpresent
      refine ⟨0, s, ?_, ls, ?_⟩
      · rw [hcall, hnil, nil_append, insert_range, if_pos rfl, Option.bind_some, put_tree]
      · rw [← hentries, hnil]
        show RefinesBy s (update m j (m j)) ls
        rw [update_eq_self]
        exact h
    · rw [← hentries] at hnew
      obtain ⟨t', ls', hrange, href, -⟩ :=
        insert_range_spec A h hji hsplit hnew (Nat.le_refl ys.length)
      refine ⟨ys.length, s.put i t', ?_, ls', ?_⟩
      · rw [hcall, hrange]
        rfl
      · rw [← hentries]
        exact href

/-- Ranges of values go in one by one.  A range of iterators of a map does so if
and only if no key of the range is in the map, or twice in the range. -/
theorem insert_of_range_iff (A : Allocator α) {s : System ι α K V} {m : ι → OrderedMap K V}
    (h : Refines s m) (i j : ι) {a b : Nat} (hab : a ≤ b) :
    (∀ vs, ∃ s', insertEach A i s vs = some s' ∧
        Refines s' (update m i ((m i).insertAll vs))) ∧
      (RangeRight A s m i j a b ↔ (m i).New (rangeOf (m j) a b)) :=
  ⟨insertEach_spec A h i, rangeRight_iff A h i j hab⟩

theorem insert_of_range_iff_sample :
    (∀ vs, ∃ s', insertEach natAllocator false sample vs = some s' ∧
        Refines s' (update sampleMaps false ((sampleMaps false).insertAll vs))) ∧
      (RangeRight natAllocator sample sampleMaps false true 1 2 ↔
        (sampleMaps false).New (rangeOf (sampleMaps true) 1 2)) :=
  insert_of_range_iff natAllocator sample_refines false true (by decide)

/-- The map with the keys 1 and 3 after the insertion of the whole map with the
keys 3 and 4: four nodes are counted. -/
theorem insert_of_range_present :
    Refines sample sampleMaps ∧ ¬RangeRight natAllocator sample sampleMaps false true 0 2 := by
  refine ⟨sample_refines, fun h => ?_⟩
  have hnew := (rangeRight_iff natAllocator sample_refines false true (Nat.zero_le 2)).mp h
  have hmem : (3, 33) ∈ rangeOf (sampleMaps true) 0 2 := by decide +kernel
  have hfind : (sampleMaps false).find 3 ≠ none := by decide +kernel
  exact hfind (hnew.1 _ hmem)

/-! ## Assignment -/

omit [DecidableEq α] in
/-- After `a = b` the map `a` has the entries that `b` had, and so has `b`. -/
def AssignRight (A : Allocator α) (s : System ι α K V) (m : ι → OrderedMap K V) (i j : ι) :
    Prop :=
  ∃ s', assign A s i j = some s' ∧ Refines s' (update m i (m j))

theorem clear_setComp {ls : ι → List α} (h : RefinesBy s m ls) (i j : ι) :
    ∃ s', clear (setComp s i j) i = some s' ∧
      RefinesBy s' (update m i (m j).clear) (update ls i []) := by
  obtain ⟨t', hclear, heff⟩ := (h.models i).clear
  have htree : (setComp s i j).tree i = s.tree i := by
    simp [setComp, System.tree]
  refine ⟨(setComp s i j).put i t', ?_, ?_⟩
  · simp only [clear, htree, hclear, Option.bind_eq_bind, Option.bind_some]
  · have hput := h.put heff (show ([] : List α).map t'.data = (m i).clear.entries from rfl) rfl
    refine ⟨fun k => ?_, fun k => ?_, fun k => ?_, hput.disjoint⟩
    · have hk := hput.contains k
      have hmaps : ((setComp s i j).put i t').tree k = (s.put i t').tree k := by
        by_cases hki : k = i
        · subst hki
          rw [tree_put, tree_put]
        · simp [System.tree, System.put, setComp, hki]
      rw [hmaps]
      exact hk
    · have hk := hput.entries k
      by_cases hki : k = i
      · subst hki
        rw [update_self, update_self]
        rfl
      · rw [update_of_ne hki] at hk ⊢
        rw [update_of_ne hki] at hk ⊢
        exact hk
    · rw [comp_put]
      by_cases hki : k = i
      · subst hki
        rw [update_self]
        show _ = (m j).comp
        rw [← h.comp j]
        simp [setComp, System.comp]
      · rw [update_of_ne hki, ← h.comp k]
        simp [setComp, System.comp, hki]

theorem assign_eq (A : Allocator α) {s1 : System ι α K V}
    (hclear : clear (setComp s i j) i = some s1)
    (hrange : insert_range A (s1.comp i) (s1.tree i).fuel (s1.tree i) (begin s1 j) none = some t) :
    assign A s i j = match t.header.child .left with
      | none => some (s1.put i t)
      | some n => (splay t.fuel t n).bind fun t => some (s1.put i t) := by
  simp only [assign, hclear, Option.bind_eq_bind, Option.bind_some, hrange]

theorem assign_of_ne (A : Allocator α) (h : Refines s m) (hij : i ≠ j) : AssignRight A s m i j := by
  obtain ⟨ls, h⟩ := h
  have hji : j ≠ i := Ne.symm hij
  obtain ⟨s1, hclear, h1⟩ := clear_setComp h i j
  have hlsj : update ls i [] j = ls j := update_of_ne hji _ _
  have hentries : (ls j).map s1.data = (m j).entries := by
    have hj := h1.entries j
    rw [hlsj, update_of_ne hji] at hj
    exact hj
  have hsorted : ((m j).clear.entries ++ (m j).entries).Pairwise
      fun a b => (m j).clear.comp a.1 b.1 = true := (m j).sorted
  obtain ⟨hnew, hall⟩ := OrderedMap.insertAll_sorted hsorted
  have hcopy : (m j).clear.insertAll (m j).entries = m j := by
    refine OrderedMap.ext ?_ hall
    rw [OrderedMap.insertAll_comp]
    rfl
  have hfuel : (ls j).length ≤ (s1.tree i).fuel := by
    have hlt := (h1.contains j).length_lt_fuel
    rw [hlsj] at hlt
    exact Nat.le_of_lt hlt
  obtain ⟨t, ls', hrange, href, -⟩ := insert_range_spec A h1 hji
    (show update ls i [] j = [] ++ (ls j ++ []) by rw [hlsj]; simp)
    (by rw [update_self, hentries]; exact hnew) hfuel
  rw [update_self, hentries, hcopy, update_idem] at href
  rw [append_nil, ← hlsj, ← h1.begin_eq] at hrange
  have hassign := assign_eq A hclear hrange
  have hcontains := href.contains i
  rw [tree_put] at hcontains
  cases hfirst : t.header.child .left with
  | none =>
    rw [hfirst] at hassign
    exact ⟨_, hassign, ls', href⟩
  | some n =>
    have hn : n ∈ ls' i := mem_of_mem_head? (hcontains.first ▸ hfirst)
    obtain ⟨t', hsplay, hcontains', hrel⟩ := hcontains.splay hn
    simp only [hfirst, hsplay, Option.bind_some] at hassign
    have heff : Effect (ls' i) (ls' i) ((s1.put i t).tree i) t' := by
      rw [tree_put]
      exact .of_relinks hcontains' hrel
    have hput := href.put_self heff hrel.data
    rw [put_put] at hput
    exact ⟨_, hassign, ls', hput⟩

theorem assign_self (A : Allocator α) (h : Refines s m) (i : ι) :
    ∃ s', assign A s i i = some s' ∧ Refines s' (update m i (m i).clear) := by
  obtain ⟨ls, h⟩ := h
  obtain ⟨s1, hclear, h1⟩ := clear_setComp h i i
  have hcontains := h1.contains i
  rw [update_self] at hcontains
  have hbegin : begin s1 i = none := hcontains.first
  have hrange : insert_range A (s1.comp i) (s1.tree i).fuel (s1.tree i) (begin s1 i) none =
      some (s1.tree i) := by
    rw [hbegin, Tree.fuel, insert_range, if_pos rfl]
  have hassign := assign_eq A hclear hrange
  rw [show (s1.tree i).header.child .left = none from hbegin, put_tree] at hassign
  exact ⟨s1, hassign, _, h1⟩

theorem assignRight_iff (A : Allocator α) (h : Refines s m) (i j : ι) :
    AssignRight A s m i j ↔ i ≠ j ∨ (m j).entries = [] := by
  by_cases hij : i = j
  · subst hij
    obtain ⟨s', hassign, ls, h'⟩ := assign_self A h i
    constructor
    · rintro ⟨s2, hcall, ls2, h2⟩
      obtain rfl := Option.some.inj (hassign.symm.trans hcall)
      -- The header counts the entries, and there are none.
      have hlen := (h'.contains i).size.symm.trans (h2.contains i).size
      have hnone := h'.entries i
      rw [update_self] at hnone
      rw [map_eq_nil_iff.mp hnone] at hlen
      have hnil : ls2 i = [] := length_eq_zero_iff.mp hlen.symm
      right
      have hentries := h2.entries i
      rw [hnil, update_self] at hentries
      exact hentries.symm
    · intro hcond
      have hnil := hcond.resolve_left fun hne => hne rfl
      have hclear : (m i).clear = m i := OrderedMap.ext rfl hnil.symm
      rw [hclear] at h'
      exact ⟨s', hassign, ls, h'⟩
  · exact ⟨fun _ => .inl hij, fun _ => assign_of_ne A h hij⟩

/-! ## Both containers -/

variable {κ T : Type u} [DecidableEq κ]

/-- `operator=` of vectors and of maps is right between two objects.  An object that
is assigned to itself is cleared first, so it keeps its contents only if it has none. -/
theorem containerAssign_iff (A : Allocator α) {vs : κ → StlVector.Vector T} {ls : κ → List T}
    (hv : ∀ k, StlVector.Contains (vs k) (ls k)) {s : System ι α K V}
    {m : ι → OrderedMap K V} (hm : Refines s m) (a b : κ) (i j : ι) :
    (StlVector.VectorAssignRight vs ls a b ↔ a ≠ b ∨ ls b = []) ∧
      (AssignRight A s m i j ↔ i ≠ j ∨ (m j).entries = []) :=
  ⟨StlVector.vectorAssignRight_iff hv a b, assignRight_iff A hm i j⟩

theorem containerAssign_sample :
    (StlVector.VectorAssignRight (fun _ : Bool => StlVector.threeOfFive) (fun _ => [1, 2, 3])
        false true ↔ false ≠ true ∨ [1, 2, 3] = []) ∧
      (AssignRight natAllocator sample sampleMaps false true ↔
        false ≠ true ∨ (sampleMaps true).entries = []) :=
  containerAssign_iff natAllocator (fun _ => StlVector.threeOfFive_contains) sample_refines
    false true false true

/-- A vector and a map with elements, each assigned to itself. -/
theorem containerAssign_of_self :
    ¬ StlVector.VectorAssignRight (fun _ : Bool => StlVector.threeOfFive) (fun _ => [1, 2, 3])
        true true ∧
      ¬ AssignRight natAllocator sample sampleMaps false false := by
  constructor
  · rw [StlVector.vectorAssignRight_iff (fun _ => StlVector.threeOfFive_contains)]
    decide
  · rw [assignRight_iff natAllocator sample_refines]
    decide

end Hostboot.Util.StlMap
