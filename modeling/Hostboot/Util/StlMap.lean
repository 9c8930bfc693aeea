import Hostboot.Lib.OrderedMap
import Hostboot.Util.SplaySearch
import Mathlib.Logic.Equiv.Basic

/-!
# `std::map` over a splay tree

`include/util/impl/stlmap.H` makes a map of a splay tree and a comparison.  A
`System` has any number of maps, whose nodes lie in one memory, and the
operations of the source on them.

Against it stands a family of `OrderedMap`s.  `Refines` says what the two have to
do with each other: each tree is linked as a tree should be and its header is
exact, its nodes in order hold the entries of the ordered map, and no two trees
share a node.
-/

namespace Hostboot.Util.StlMap

open Hostboot.Lib Hostboot.Lib.LinkedTree Hostboot.Util.SplayTree List
open Function (update update_eq_self update_idem update_of_ne update_self)

universe u

/-! ## The functions of the source -/

/-- A map: `iv_tree`, of which only the header is the map's own, and `iv_comp`. -/
structure Map (α K : Type u) where
  iv_tree : Header α
  iv_comp : K → K → Bool

/-- The nodes in memory, and the maps. -/
structure System (ι α K V : Type u) extends Mem α where
  data : α → K × V
  live : List α
  maps : ι → Map α K

variable {ι α K V : Type u} [DecidableEq ι] [DecidableEq α]

namespace System

/-- The tree of a map. -/
def tree (s : System ι α K V) (i : ι) : Tree α (K × V) where
  parent := s.parent
  child := s.child
  data := s.data
  live := s.live
  header := (s.maps i).iv_tree

/-- The comparison of a map. -/
def comp (s : System ι α K V) (i : ι) : K → K → Bool := (s.maps i).iv_comp

/-- The system after an operation on the tree of a map. -/
def put (s : System ι α K V) (i : ι) (t : Tree α (K × V)) : System ι α K V where
  parent := t.parent
  child := t.child
  data := t.data
  live := t.live
  maps := update s.maps i { s.maps i with iv_tree := t.header }

end System

/-- `Map::insert` of one value: the node with the key, and whether it is new. -/
def insert (A : Allocator α) (s : System ι α K V) (i : ι) (x : K × V) :
    Option (System ι α K V × α × Bool) := do
  let (t, rc, n) ← insert_by_value A (s.comp i) (s.tree i) x
  some (s.put i t, n, rc)

/-- `Map::operator[]`: the node whose value it gives a reference to. -/
def index [Inhabited V] (A : Allocator α) (s : System ι α K V) (i : ι) (k : K) :
    Option (System ι α K V × α) := do
  let (s, n, _) ← insert A s i (k, default)
  some (s, n)

/-- `it->second = x`, through an iterator or a reference. -/
def store (s : System ι α K V) (n : α) (x : V) : System ι α K V :=
  { s with data := update s.data n ((s.data n).1, x) }

/-- `Map::find`. -/
def find (s : System ι α K V) (i : ι) (k : K) : Option (System ι α K V × Option α) := do
  let (t, n) ← find_by_value (s.comp i) (s.tree i) k
  some (s.put i t, n)

/-- `Map::lower_bound`. -/
def lower_bound (s : System ι α K V) (i : ι) (k : K) : Option (System ι α K V × Option α) := do
  let (t, n) ← lower_bound_by_value (s.comp i) (s.tree i) k
  some (s.put i t, n)

/-- `Map::upper_bound`, which asks the tree for the lower bound. -/
def upper_bound (s : System ι α K V) (i : ι) (k : K) : Option (System ι α K V × Option α) := do
  let (t, n) ← lower_bound_by_value (s.comp i) (s.tree i) k
  some (s.put i t, n)

/-- `Map::equal_range`. -/
def equal_range (s : System ι α K V) (i : ι) (k : K) :
    Option (System ι α K V × Option α × Option α) := do
  let (s, first) ← lower_bound s i k
  let (s, last) ← upper_bound s i k
  some (s, first, last)

/-- What `Map::at` comes to: the value it gives a reference to, or the failed
`crit_assert`. -/
inductive At (V : Type u)
  | second (x : V)
  | crit_assert
  deriving DecidableEq

/-- `Map::at`. -/
def atKey (s : System ι α K V) (i : ι) (k : K) : Option (System ι α K V × At V) := do
  let (s, result) ← lower_bound s i k
  match result with
  | none => some (s, .crit_assert)
  | some n => some (s, .second (s.data n).2)

/-- `Map::erase` of a key: how many nodes went. -/
def erase (s : System ι α K V) (i : ι) (k : K) : Option (System ι α K V × Nat) := do
  let (t, n) ← remove_by_value (s.comp i) (s.tree i) k
  some (s.put i t, n)

/-- `Map::erase` of an iterator. -/
def eraseIterator (s : System ι α K V) (i : ι) (n : α) : Option (System ι α K V) := do
  let t ← remove (s.tree i) n
  some (s.put i (free t n))

/-- `Map::swap`. -/
def swap (s : System ι α K V) (i j : ι) : System ι α K V :=
  { s with maps := update (update s.maps i (s.maps j)) j (s.maps i) }

/-- `Map::clear`. -/
def clear (s : System ι α K V) (i : ι) : Option (System ι α K V) := do
  let t ← SplayTree.clear (s.tree i)
  some (s.put i t)

/-- `Map::begin`.  `Map::end` is the null iterator. -/
def begin (s : System ι α K V) (i : ι) : Option α := (s.maps i).iv_tree.child .left

/-- `Iterator::increment`. -/
def increment (s : System ι α K V) (i : ι) : Option α → Option (Option α)
  | none => some (begin s i)
  | some n => successor (s.tree i) n

/-- The iterator a number of steps behind `it`, or the end. -/
def advance (s : System ι α K V) (i : ι) : Nat → Option α → Option (Option α)
  | _, none => some none
  | 0, it => some it
  | n + 1, some a => do
    let next ← increment s i (some a)
    advance s i n next

/-- The entries that a loop from `first` to `last` sees. -/
def between (s : System ι α K V) (i : ι) (last : Option α) :
    Nat → Option α → Option (List (K × V))
  | 0, first => if first = last then some [] else none
  | fuel + 1, first =>
    if first = last then some []
    else do
      let n ← first
      let next ← increment s i (some n)
      let rest ← between s i last fuel next
      some (s.data n :: rest)

/-! ## What a program does to the maps -/

/-- The operations.  An iterator to erase is given by its distance from
`begin()`. -/
inductive Op (ι K V : Type u)
  | insert (i : ι) (x : K × V)
  | index (i : ι) (k : K)
  | assign (i : ι) (k : K) (x : V)
  | find (i : ι) (k : K)
  | lower_bound (i : ι) (k : K)
  | erase (i : ι) (k : K)
  | eraseAt (i : ι) (n : Nat)
  | swap (i j : ι)
  | clear (i : ι)
  | iterate (i : ι)

/-- What an operation tells the program. -/
inductive Result (K V : Type u)
  | inserted (e : K × V) (isNew : Bool)
  | value (x : V)
  | entry (e : Option (K × V))
  | erased (n : Nat)
  | entries (es : List (K × V))
  | done

/-- An operation of the source. -/
def step [Inhabited V] (A : Allocator α) (s : System ι α K V) :
    Op ι K V → Option (System ι α K V × Result K V)
  | .insert i x => do
    let (s, n, rc) ← insert A s i x
    some (s, .inserted (s.data n) rc)
  | .index i k => do
    let (s, n) ← index A s i k
    some (s, .value (s.data n).2)
  | .assign i k x => do
    let (s, n) ← index A s i k
    some (store s n x, .done)
  | .find i k => do
    let (s, n) ← find s i k
    some (s, .entry (n.map s.data))
  | .lower_bound i k => do
    let (s, n) ← lower_bound s i k
    some (s, .entry (n.map s.data))
  | .erase i k => do
    let (s, n) ← erase s i k
    some (s, .erased n)
  | .eraseAt i n => do
    let it ← advance s i n (begin s i)
    match it with
    | none => some (s, .done)
    | some n => do
      let s ← eraseIterator s i n
      some (s, .done)
  | .swap i j => some (swap s i j, .done)
  | .clear i => do
    let s ← clear s i
    some (s, .done)
  | .iterate i => do
    let es ← between s i none (s.tree i).fuel (begin s i)
    some (s, .entries es)

/-- A run of operations. -/
def run [Inhabited V] (A : Allocator α) (s : System ι α K V) :
    List (Op ι K V) → Option (System ι α K V × List (Result K V))
  | [] => some (s, [])
  | op :: ops => do
    let (s, r) ← step A s op
    let (s, rs) ← run A s ops
    some (s, r :: rs)

/-- The same operation on ordered maps. -/
def absStep [Inhabited V] (m : ι → OrderedMap K V) :
    Op ι K V → (ι → OrderedMap K V) × Result K V
  | .insert i x =>
    (update m i ((m i).insert x),
      .inserted ((((m i).insert x).find x.1).getD x) ((m i).find x.1).isNone)
  | .index i k =>
    (update m i ((m i).insert (k, default)),
      .value ((((m i).insert (k, default)).find k).getD (k, default)).2)
  | .assign i k x =>
    (update m i (((m i).insert (k, default)).set k x), .done)
  | .find i k => (m, .entry ((m i).find k))
  | .lower_bound i k => (m, .entry ((m i).lowerBound k))
  | .erase i k =>
    (update m i ((m i).erase k), .erased (if ((m i).find k).isSome then 1 else 0))
  | .eraseAt i n => (update m i ((m i).eraseAt n), .done)
  | .swap i j => (update (update m i (m j)) j (m i), .done)
  | .clear i => (update m i (m i).clear, .done)
  | .iterate i => (m, .entries (m i).entries)

/-- A run on ordered maps. -/
def absRun [Inhabited V] (m : ι → OrderedMap K V) :
    List (Op ι K V) → (ι → OrderedMap K V) × List (Result K V)
  | [] => (m, [])
  | op :: ops => ((absRun (absStep m op).1 ops).1, (absStep m op).2 :: (absRun (absStep m op).1 ops).2)

/-! ## What an operation does to the nodes of a tree -/

/-- An operation that leaves the nodes `l'` in a tree that had `l`.  The new nodes
were not in use, and no other nodes are touched. -/
structure Effect {D : Type u} (l l' : List α) (t t' : Tree α D) : Prop where
  contains : Contains t' l'
  touches : Touches (l ++ l') t t'
  fresh : ∀ a ∈ l', a ∈ l ∨ a ∉ t.live

omit [DecidableEq α] in
theorem Effect.of_relinks {D : Type u} {l : List α} {t t' : Tree α D} (h : Contains t' l)
    (hrel : Relinks l t t') : Effect l l t t' :=
  ⟨h, hrel.touches.mono fun _ => mem_append_left _, fun _ => .inl⟩

omit [DecidableEq α] in
theorem Effect.after {D : Type u} {l l' : List α} {t t1 t' : Tree α D} (h1 : Effect l l t t1)
    (h : Effect l l' t1 t') : Effect l l' t t' where
  contains := h.contains
  touches := (h1.touches.mono fun a ha => mem_append_left _
    ((mem_append.mp ha).elim id id)).trans h.touches
  fresh a ha := by
    by_cases hl : a ∈ l
    · exact .inl hl
    · refine .inr fun hlive => ?_
      have hlive1 := (h1.touches.live a (by simpa using hl)).mpr hlive
      rcases h.fresh a ha with hold | hnew
      · exact hl hold
      · exact hnew hlive1

/-- The nodes of the tree, in order, hold the entries of the ordered map. -/
structure Models (t : Tree α (K × V)) (l : List α) (m : OrderedMap K V) : Prop where
  contains : Contains t l
  entries : l.map t.data = m.entries

namespace Models

variable {t : Tree α (K × V)} {l : List α} {m : OrderedMap K V}

omit [DecidableEq α] in
theorem sorted (h : Models t l m) : Sorted m.comp t l := by
  have hsorted := m.sorted
  rw [← h.entries] at hsorted
  exact pairwise_map.mp hsorted

omit [DecidableEq α] in
theorem find_eq (h : Models t l m) (k : K) :
    m.find k = (l.find? fun a => equiv m.comp k (t.key a)).map t.data := by
  rw [OrderedMap.find, ← h.entries, find?_map]
  rfl

omit [DecidableEq α] in
theorem lowerBound_eq (h : Models t l m) (k : K) :
    m.lowerBound k = (l.find? fun a => !m.comp (t.key a) k).map t.data := by
  rw [OrderedMap.lowerBound, ← h.entries, find?_map]
  rfl

theorem insert_copy (h : Models t l m) (A : Allocator α) (v : K × V) (hfind : m.find v.1 = none) :
    ∃ t' l', SplayTree.insert m.comp (copy A t v).1 (copy A t v).2 = some t' ∧
      Effect l l' t t' ∧ l'.map t'.data = (m.insert v).entries ∧ (copy A t v).2 ∈ l' ∧
      (m.insert v).find v.1 = some (t'.data (copy A t v).2) := by
  let n := (copy A t v).2
  let t2 := (copy A t v).1
  have hn : n ∉ t.live := A.fresh _
  have hnl : n ∉ l := fun hmem => hn (h.contains.live hmem)
  have htouch2 : Touches [n] t t2 := by
    refine ⟨fun a ha => ?_, fun a ha => ?_, fun a ha => ?_, fun a ha => ?_⟩
    · exact update_of_ne (mem_singleton.not.mp ha) _ _
    · exact update_of_ne (mem_singleton.not.mp ha) _ _
    · exact update_of_ne (mem_singleton.not.mp ha) _ _
    · show a ∈ n :: t.live ↔ _
      rw [mem_cons, or_iff_right (mem_singleton.not.mp ha)]
  have hcontains2 : Contains t2 l := h.contains.of_touches htouch2 rfl fun a ha hmem =>
    hnl (mem_singleton.mp hmem ▸ ha)
  have hdata : ∀ a ∈ l, t2.data a = t.data a := fun a ha =>
    htouch2.data a fun hmem => hnl (mem_singleton.mp hmem ▸ ha)
  have hkey : ∀ a ∈ l, t2.key a = t.key a := fun a ha => by rw [Tree.key, hdata a ha, Tree.key]
  have hdatan : t2.data n = v := update_self _ _ _
  have hkeyn : t2.key n = v.1 := by rw [Tree.key, hdatan]
  have hsorted2 : Sorted m.comp t2 l := by
    refine h.sorted.imp_of_mem fun {a b} ha hb hab => ?_
    rw [hkey a ha, hkey b hb]
    exact hab
  have habsent : ∀ b ∈ l, equiv m.comp (t2.key n) (t2.key b) = false := by
    intro b hb
    rw [h.find_eq v.1, Option.map_eq_none_iff] at hfind
    rw [hkeyn, hkey b hb]
    exact Bool.eq_false_iff.mpr (find?_eq_none.mp hfind b hb)
  obtain ⟨t3, xs, ys, hinsert, rfl, hlt, hgt, hcontains3, htouch3, hdata3, -⟩ :=
    hcontains2.insert m.strict hsorted2 hnl mem_cons_self
      (fun d => congrFun (update_self n _ t.child) d) habsent
  have hmap : ∀ zs : List α, (∀ a ∈ zs, a ∈ xs ++ ys) → zs.map t3.data = zs.map t.data := by
    intro zs hzs
    refine map_congr_left fun a ha => ?_
    rw [hdata3, hdata a (hzs a ha)]
  have hxs := hmap xs fun a => mem_append_left _
  have hys := hmap ys fun a => mem_append_right _
  have hsplit : m.entries = xs.map t.data ++ [] ++ ys.map t.data := by
    rw [← h.entries, map_append, append_nil]
  have hdiv : Divides m.comp Prod.fst v.1 (xs.map t.data) [] (ys.map t.data) := by
    refine ⟨fun e he => ?_, fun e he => absurd he not_mem_nil, fun e he => ?_⟩
    · obtain ⟨a, ha, rfl⟩ := mem_map.mp he
      have hlt' := hlt a ha
      rw [hkeyn, hkey a (mem_append_left _ ha)] at hlt'
      exact hlt'
    · obtain ⟨a, ha, rfl⟩ := mem_map.mp he
      have hgt' := hgt a ha
      rw [hkeyn, hkey a (mem_append_right _ ha)] at hgt'
      exact hgt'
  have hentries : (m.insert v).entries = xs.map t.data ++ v :: ys.map t.data := by
    rw [OrderedMap.insert_of_divides hsplit hdiv, if_pos rfl]
  refine ⟨t3, xs ++ n :: ys, hinsert, ⟨hcontains3, ?_, ?_⟩, ?_, ?_, ?_⟩
  · refine (htouch2.mono fun a ha => ?_).trans (htouch3.mono fun a ha => ?_)
    · rw [mem_singleton.mp ha]
      simp
    · simp only [mem_cons, mem_append] at ha ⊢
      tauto
  · intro a ha
    simp only [mem_cons, mem_append] at ha ⊢
    rcases ha with ha | rfl | ha
    · exact .inl (.inl ha)
    · exact .inr hn
    · exact .inl (.inr ha)
  · rw [hentries, map_append, map_cons, hxs, hys, hdata3, hdatan]
  · exact mem_append_right _ mem_cons_self
  · have hsorted := (m.insert v).sorted
    rw [hentries, OrderedMap.insert_comp] at hsorted
    have hdiv' : Divides (m.insert v).comp Prod.fst v.1 (xs.map t.data) [v] (ys.map t.data) := by
      rw [OrderedMap.insert_comp]
      exact .of_split m.strict hsorted (m.strict.equiv_refl v.1)
    rw [hdata3, hdatan, OrderedMap.find_of_divides (by rw [hentries]; simp) hdiv']
    rfl

theorem insert_by_value (h : Models t l m) (A : Allocator α) (v : K × V) :
    ∃ t' isNew n l', SplayTree.insert_by_value A m.comp t v = some (t', isNew, n) ∧
      Effect l l' t t' ∧ l'.map t'.data = (m.insert v).entries ∧ n ∈ l' ∧
      (m.insert v).find v.1 = some (t'.data n) ∧ isNew = (m.find v.1).isNone := by
  obtain ⟨t1, hfind, hcontains, hrel⟩ := h.contains.find_by_value m.strict h.sorted v.1
  have hmfind := h.find_eq v.1
  cases hr : l.find? fun a => equiv m.comp v.1 (t.key a) with
  | some n =>
    rw [hr] at hfind hmfind
    have hinsert : m.insert v = m := by
      rw [OrderedMap.insert, hmfind]
      rfl
    refine ⟨t1, false, n, l, ?_, .of_relinks hcontains hrel, ?_, mem_of_find?_eq_some hr,
      ?_, ?_⟩
    · simp only [SplayTree.insert_by_value, hfind, Option.bind_eq_bind, Option.bind_some]
    · rw [hinsert, hrel.data]
      exact h.entries
    · rw [hinsert, hmfind, hrel.data]
      rfl
    · rw [hmfind]
      rfl
  | none =>
    rw [hr] at hfind hmfind
    have hmodels : Models t1 l m := ⟨hcontains, by rw [hrel.data]; exact h.entries⟩
    obtain ⟨t', l', hinsert, heff, hentries, hn, hfind'⟩ := hmodels.insert_copy A v hmfind
    refine ⟨t', true, _, l', ?_, (Effect.of_relinks hcontains hrel).after heff, hentries, hn,
      hfind', ?_⟩
    · simp only [SplayTree.insert_by_value, hfind, Option.bind_eq_bind, Option.bind_some, hinsert]
    · rw [hmfind]
      rfl

theorem find_by_value (h : Models t l m) (k : K) :
    ∃ t' n, SplayTree.find_by_value m.comp t k = some (t', n) ∧ Effect l l t t' ∧
      t'.data = t.data ∧ n.map t.data = m.find k := by
  obtain ⟨t', hfind, hcontains, hrel⟩ := h.contains.find_by_value m.strict h.sorted k
  exact ⟨t', _, hfind, .of_relinks hcontains hrel, hrel.data, (h.find_eq k).symm⟩

theorem lower_bound_by_value (h : Models t l m) (k : K) :
    ∃ t' n, SplayTree.lower_bound_by_value m.comp t k = some (t', n) ∧ Effect l l t t' ∧
      t'.data = t.data ∧ n.map t.data = m.lowerBound k ∧
      n = l.find? fun a => !m.comp (t.key a) k := by
  obtain ⟨t', hfind, hcontains, hrel⟩ := h.contains.lower_bound_by_value m.strict h.sorted k
  exact ⟨t', _, hfind, .of_relinks hcontains hrel, hrel.data, (h.lowerBound_eq k).symm, rfl⟩

theorem remove {xs ys : List α} {n : α} (h : Models t (xs ++ n :: ys) m) :
    ∃ t', SplayTree.remove t n = some t' ∧
      Effect (xs ++ n :: ys) (xs ++ ys) t (free t' n) ∧ (free t' n).data = t.data := by
  obtain ⟨t', hremove, hcontains, hdata, -, htouch⟩ := h.contains.remove
  refine ⟨t', hremove, ⟨hcontains, htouch.mono fun a => mem_append_left _, fun a ha => ?_⟩,
    hdata⟩
  left
  simp only [mem_append, mem_cons] at ha ⊢
  tauto

theorem remove_by_value (h : Models t l m) (k : K) :
    ∃ t' c l', SplayTree.remove_by_value m.comp t k = some (t', c) ∧ Effect l l' t t' ∧
      l'.map t'.data = (m.erase k).entries ∧ c = if (m.find k).isSome then 1 else 0 := by
  have hdivides : ∀ xs mid ys, l = xs ++ mid ++ ys → Divides m.comp t.key k xs mid ys →
      (m.erase k).entries = (xs ++ ys).map t.data ∧ m.find k = mid.head?.map t.data := by
    intro xs mid ys hl hdiv
    have hsplit : m.entries = xs.map t.data ++ mid.map t.data ++ ys.map t.data := by
      rw [← h.entries, hl, map_append, map_append]
    have hdiv' : Divides m.comp Prod.fst k (xs.map t.data) (mid.map t.data) (ys.map t.data) :=
      hdiv.map fun _ => rfl
    rw [OrderedMap.erase_of_divides hsplit hdiv', OrderedMap.find_of_divides hsplit hdiv',
      map_append, head?_map]
    exact ⟨rfl, rfl⟩
  cases hroot : t.header.parent with
  | none =>
    obtain rfl := h.contains.root_eq_none_iff.mp hroot
    have hnil : Divides m.comp t.key k [] [] [] :=
      ⟨fun b hb => absurd hb not_mem_nil, fun b hb => absurd hb not_mem_nil,
        fun b hb => absurd hb not_mem_nil⟩
    obtain ⟨herase, hfind⟩ := hdivides [] [] [] rfl hnil
    refine ⟨t, 0, [], ?_, .of_relinks h.contains (.refl _ _), herase.symm, ?_⟩
    · simp only [SplayTree.remove_by_value, hroot]
    · rw [hfind]
      rfl
  | some root =>
    obtain ⟨found, n, xs, mid, ys, hfind, hl, hdiv, hends⟩ :=
      h.contains.find m.strict h.sorted k hroot
    obtain ⟨herase, hmfind⟩ := hdivides xs mid ys hl hdiv
    have hskip : found = false → mid = [] →
        ∃ t' c l', SplayTree.remove_by_value m.comp t k = some (t', c) ∧ Effect l l' t t' ∧
          l'.map t'.data = (m.erase k).entries ∧ c = if (m.find k).isSome then 1 else 0 := by
      intro hf hmid
      refine ⟨t, 0, l, ?_, .of_relinks h.contains (.refl _ _), ?_, ?_⟩
      · simp [SplayTree.remove_by_value, hroot, hfind, hf]
      · rw [herase, hl, hmid, append_nil]
      · rw [hmfind, hmid]
        rfl
    cases hends with
    | found hf hmid =>
      subst hf hmid
      obtain rfl : l = xs ++ n :: ys := by simpa using hl
      obtain ⟨t', hremove, heff, hdata⟩ := h.remove
      refine ⟨free t' n, 1, xs ++ ys, ?_, heff, ?_, ?_⟩
      · simp [SplayTree.remove_by_value, hroot, hfind, hremove]
      · rw [hdata, herase]
      · rw [hmfind]
        rfl
    | last hf hmid us hxs => exact hskip hf hmid
    | first hf hmid us hys => exact hskip hf hmid

theorem clear (h : Models t l m) :
    ∃ t', SplayTree.clear t = some t' ∧ Effect l [] t t' := by
  obtain ⟨t', hclear, hcontains, htouch, -⟩ := h.contains.clear
  exact ⟨t', hclear, hcontains, htouch.mono fun a => mem_append_left _, fun a ha =>
    absurd ha not_mem_nil⟩

end Models

/-! ## The refinement -/

/-- The trees of the system have the nodes `ls`, which hold the entries of the
ordered maps. -/
structure RefinesBy (s : System ι α K V) (m : ι → OrderedMap K V) (ls : ι → List α) : Prop where
  contains : ∀ i, Contains (s.tree i) (ls i)
  entries : ∀ i, (ls i).map s.data = (m i).entries
  comp : ∀ i, s.comp i = (m i).comp
  disjoint : ∀ i j, i ≠ j → ∀ a ∈ ls i, a ∉ ls j

/-- The maps of the system are well linked, ordered and hold the entries of the
ordered maps. -/
def Refines (s : System ι α K V) (m : ι → OrderedMap K V) : Prop := ∃ ls, RefinesBy s m ls

namespace RefinesBy

variable {s : System ι α K V} {m : ι → OrderedMap K V} {ls : ι → List α} {i : ι}

omit [DecidableEq ι] [DecidableEq α] in
theorem models (h : RefinesBy s m ls) (i : ι) : Models (s.tree i) (ls i) (m i) :=
  ⟨h.contains i, h.entries i⟩

omit [DecidableEq α] in
theorem put (h : RefinesBy s m ls) {t' : Tree α (K × V)} {l' : List α} {m' : OrderedMap K V}
    (heff : Effect (ls i) l' (s.tree i) t') (hentries : l'.map t'.data = m'.entries)
    (hcomp : m'.comp = (m i).comp) :
    RefinesBy (s.put i t') (update m i m') (update ls i l') := by
  have hother : ∀ j, j ≠ i → ∀ a ∈ ls j, a ∉ ls i ++ l' := by
    intro j hj a ha hmem
    have hnot := h.disjoint j i hj a ha
    rcases mem_append.mp hmem with hmem | hmem
    · exact hnot hmem
    · rcases heff.fresh a hmem with hold | hnew
      · exact hnot hold
      · exact hnew ((h.contains j).live ha)
  refine ⟨fun j => ?_, fun j => ?_, fun j => ?_, fun j k hjk a ha hmem => ?_⟩
  · by_cases hj : j = i
    · subst hj
      rw [update_self]
      have htree : (s.put j t').tree j = t' := by
        simp [System.tree, System.put]
      rw [htree]
      exact heff.contains
    · rw [update_of_ne hj]
      have htouch : Touches (ls i ++ l') (s.tree j) ((s.put i t').tree j) :=
        ⟨heff.touches.parent, heff.touches.child, heff.touches.data, heff.touches.live⟩
      refine (h.contains j).of_touches htouch ?_ (hother j hj)
      simp [System.tree, System.put, hj]
  · by_cases hj : j = i
    · subst hj
      rw [update_self, update_self]
      exact hentries
    · rw [update_of_ne hj, update_of_ne hj, ← h.entries j]
      exact map_congr_left fun a ha => heff.touches.data a (hother j hj a ha)
  · by_cases hj : j = i
    · subst hj
      rw [update_self, hcomp, ← h.comp j]
      simp [System.comp, System.put]
    · rw [update_of_ne hj, ← h.comp j]
      simp [System.comp, System.put, hj]
  · by_cases hj : j = i
    · subst hj
      rw [update_self] at ha
      rw [update_of_ne (Ne.symm hjk)] at hmem
      exact hother k (Ne.symm hjk) a hmem (mem_append_right _ ha)
    · rw [update_of_ne hj] at ha
      by_cases hk : k = i
      · subst hk
        rw [update_self] at hmem
        exact hother j hj a ha (mem_append_right _ hmem)
      · rw [update_of_ne hk] at hmem
        exact h.disjoint j k hjk a ha hmem

omit [DecidableEq α] in
theorem put_self (h : RefinesBy s m ls) {t' : Tree α (K × V)}
    (heff : Effect (ls i) (ls i) (s.tree i) t') (hdata : t'.data = s.data) :
    RefinesBy (s.put i t') m ls := by
  have hput := h.put heff (show (ls i).map t'.data = (m i).entries by rw [hdata]; exact h.entries i) rfl
  rw [update_eq_self, update_eq_self] at hput
  exact hput

omit [DecidableEq α] in
theorem swap (h : RefinesBy s m ls) (i j : ι) :
    RefinesBy (StlMap.swap s i j) (update (update m i (m j)) j (m i))
      (update (update ls i (ls j)) j (ls i)) := by
  let σ := Equiv.swap j i
  have hσ : ∀ {β : Type u} (f : ι → β),
      update (update f i (f j)) j (f i) = fun k => f (σ k) := fun f =>
    (Equiv.comp_swap_eq_update j i f).symm
  have htree : ∀ k, (StlMap.swap s i j).tree k = s.tree (σ k) := by
    intro k
    simp only [StlMap.swap, System.tree, hσ]
  rw [hσ, hσ]
  refine ⟨fun k => ?_, fun k => h.entries (σ k), fun k => ?_, fun k k' hne => ?_⟩
  · rw [htree]
    exact h.contains (σ k)
  · rw [← h.comp (σ k)]
    simp only [StlMap.swap, System.comp, hσ]
  · exact h.disjoint _ _ fun heq => hne (σ.injective heq)

theorem store (h : RefinesBy s m ls) {n : α} {k : K} (hn : n ∈ ls i)
    (hfind : (m i).find k = some (s.data n)) (x : V) :
    RefinesBy (StlMap.store s n x) (update m i ((m i).set k x)) ls := by
  have hdata : ∀ a, a ≠ n → (StlMap.store s n x).data a = s.data a := fun a ha =>
    update_of_ne ha _ _
  refine ⟨fun j => ?_, fun j => ?_, fun j => ?_, h.disjoint⟩
  · obtain ⟨sh, hsh, hl⟩ := h.contains j
    exact ⟨sh, ⟨⟨hsh.zip, hsh.live⟩, hsh.ends, hsh.size⟩, hl⟩
  · by_cases hj : j = i
    · subst hj
      have hequiv : equiv (m j).comp k (s.data n).1 = true :=
        find?_some (p := fun e : K × V => equiv (m j).comp k e.1) hfind
      obtain ⟨xs, ys, hsplit⟩ := append_of_mem hn
      have hsorted := (h.models j).sorted
      rw [hsplit] at hsorted
      have hdiv : Divides (m j).comp (s.tree j).key k xs [n] ys := .of_split (m j).strict hsorted hequiv
      have hnodup := (h.contains j).nodup
      rw [hsplit] at hnodup
      obtain ⟨-, hcons, hdisj⟩ := nodup_append.mp hnodup
      rw [update_self]
      show _ = (m j).entries.map _
      rw [← h.entries j, hsplit, map_map]
      refine map_congr_left fun a ha => ?_
      show _ = if equiv (m j).comp k (s.data a).1 then ((s.data a).1, x) else s.data a
      rcases mem_append.mp ha with ha | ha
      · have hlt : (m j).comp (s.data a).1 k = true := hdiv.lt a ha
        rw [hdata a fun heq => hdisj a ha n mem_cons_self heq, if_neg (by simp [equiv, hlt])]
      · rcases mem_cons.mp ha with rfl | ha
        · rw [if_pos hequiv]
          exact update_self _ _ _
        · have hgt : (m j).comp k (s.data a).1 = true := hdiv.gt a ha
          rw [hdata a fun heq => (nodup_cons.mp hcons).1 (heq ▸ ha),
            if_neg (by simp [equiv, hgt])]
    · rw [update_of_ne hj, ← h.entries j]
      refine map_congr_left fun a ha => hdata a fun heq => ?_
      exact h.disjoint j i hj a ha (heq ▸ hn)
  · rw [show (StlMap.store s n x).comp j = s.comp j from rfl, h.comp j]
    by_cases hj : j = i
    · subst hj
      rw [update_self]
      rfl
    · rw [update_of_ne hj]

/-! ### Iteration -/

omit [DecidableEq ι] [DecidableEq α] in
theorem begin_eq (h : RefinesBy s m ls) (i : ι) : begin s i = (ls i).head? := (h.contains i).first

omit [DecidableEq ι] in
theorem increment_eq (h : RefinesBy s m ls) {xs ys : List α} {n : α}
    (hsplit : ls i = xs ++ n :: ys) : increment s i (some n) = some ys.head? := by
  have hcontains := h.contains i
  rw [hsplit] at hcontains
  exact hcontains.successor

omit [DecidableEq ι] in
theorem advance_eq (h : RefinesBy s m ls) {xs ys : List α} (hsplit : ls i = xs ++ ys) (n : Nat) :
    advance s i n ys.head? = some ys[n]? := by
  induction n generalizing xs ys with
  | zero => cases ys <;> rfl
  | succ n ih =>
    cases ys with
    | nil => rfl
    | cons a ys =>
      have hinc : increment s i (some a) = some ys.head? := h.increment_eq hsplit
      have hrec := ih (show ls i = (xs ++ [a]) ++ ys by rw [hsplit]; simp)
      simp only [head?_cons, advance, hinc, Option.bind_eq_bind, Option.bind_some, hrec]
      rfl

omit [DecidableEq ι] in
/-- A loop from one iterator to another sees the entries between them. -/
theorem between_eq (h : RefinesBy s m ls) {xs ys zs : List α} {fuel : Nat}
    (hsplit : ls i = xs ++ (ys ++ zs)) (hfuel : ys.length ≤ fuel) :
    between s i zs.head? fuel (ys ++ zs).head? = some (ys.map s.data) := by
  induction ys generalizing xs fuel with
  | nil => cases fuel <;> cases zs <;> simp [between]
  | cons a ys ih =>
    cases fuel with
    | zero => exact absurd hfuel (Nat.not_succ_le_zero _)
    | succ fuel =>
      have hne : some a ≠ zs.head? := by
        intro heq
        have hnodup := (h.contains i).nodup
        rw [hsplit] at hnodup
        have ha : a ∈ zs := mem_of_mem_head? heq.symm
        exact (nodup_cons.mp (nodup_append.mp hnodup).2.1).1 (mem_append_right _ ha)
      have hinc : increment s i (some a) = some (ys ++ zs).head? := h.increment_eq hsplit
      have hsplit' : ls i = (xs ++ [a]) ++ (ys ++ zs) := by
        rw [hsplit]
        simp
      have hrec := ih hsplit' (Nat.le_of_succ_le_succ hfuel)
      have hhead : ((a :: ys) ++ zs).head? = some a := rfl
      rw [hhead, between, if_neg hne]
      simp only [hinc, Option.bind_eq_bind, Option.bind_some, hrec]
      rfl

/-! ### The operations -/

theorem insert (h : RefinesBy s m ls) (A : Allocator α) (i : ι) (x : K × V) :
    ∃ s' n rc ls', StlMap.insert A s i x = some (s', n, rc) ∧
      RefinesBy s' (update m i ((m i).insert x)) ls' ∧ n ∈ ls' i ∧
      ((m i).insert x).find x.1 = some (s'.data n) ∧ rc = ((m i).find x.1).isNone := by
  obtain ⟨t', rc, n, l', hinsert, heff, hentries, hn, hfind, hrc⟩ := (h.models i).insert_by_value A x
  refine ⟨s.put i t', n, rc, _, ?_, h.put heff hentries (OrderedMap.insert_comp _ _), ?_, hfind, hrc⟩
  · simp only [StlMap.insert, h.comp i, hinsert, Option.bind_eq_bind, Option.bind_some]
  · rw [update_self]
    exact hn

theorem index [Inhabited V] (h : RefinesBy s m ls) (A : Allocator α) (i : ι) (k : K) :
    ∃ s' n ls', StlMap.index A s i k = some (s', n) ∧
      RefinesBy s' (update m i ((m i).insert (k, default))) ls' ∧ n ∈ ls' i ∧
      ((m i).insert (k, default)).find k = some (s'.data n) := by
  obtain ⟨s', n, rc, ls', hinsert, href, hn, hfind, -⟩ := h.insert A i (k, default)
  refine ⟨s', n, ls', ?_, href, hn, hfind⟩
  simp only [StlMap.index, hinsert, Option.bind_eq_bind, Option.bind_some]

theorem find (h : RefinesBy s m ls) (i : ι) (k : K) :
    ∃ s' n, StlMap.find s i k = some (s', n) ∧ RefinesBy s' m ls ∧ s'.data = s.data ∧
      n.map s.data = (m i).find k := by
  obtain ⟨t', n, hfind, heff, hdata, hn⟩ := (h.models i).find_by_value k
  refine ⟨s.put i t', n, ?_, h.put_self heff hdata, hdata, hn⟩
  simp only [StlMap.find, h.comp i, hfind, Option.bind_eq_bind, Option.bind_some]

theorem lower_bound (h : RefinesBy s m ls) (i : ι) (k : K) :
    ∃ s', StlMap.lower_bound s i k =
        some (s', (ls i).find? fun a => !(m i).comp (s.data a).1 k) ∧
      RefinesBy s' m ls ∧ s'.data = s.data ∧
      ((ls i).find? fun a => !(m i).comp (s.data a).1 k).map s.data = (m i).lowerBound k := by
  obtain ⟨t', n, hfind, heff, hdata, hn, rfl⟩ := (h.models i).lower_bound_by_value k
  refine ⟨s.put i t', ?_, h.put_self heff hdata, hdata, hn⟩
  simp only [StlMap.lower_bound, h.comp i, hfind, Option.bind_eq_bind, Option.bind_some]
  rfl

theorem erase (h : RefinesBy s m ls) (i : ι) (k : K) :
    ∃ s' c, StlMap.erase s i k = some (s', c) ∧
      Refines s' (update m i ((m i).erase k)) ∧
      c = if ((m i).find k).isSome then 1 else 0 := by
  obtain ⟨t', c, l', hremove, heff, hentries, hc⟩ := (h.models i).remove_by_value k
  refine ⟨s.put i t', c, ?_, ⟨_, h.put heff hentries rfl⟩, hc⟩
  simp only [StlMap.erase, h.comp i, hremove, Option.bind_eq_bind, Option.bind_some]

theorem eraseIterator (h : RefinesBy s m ls) {n : Nat} {a : α} (ha : (ls i)[n]? = some a) :
    ∃ s', StlMap.eraseIterator s i a = some s' ∧
      Refines s' (update m i ((m i).eraseAt n)) := by
  obtain ⟨hlt, rfl⟩ := List.getElem?_eq_some_iff.mp ha
  have hsplit : ls i = (ls i).take n ++ (ls i)[n] :: (ls i).drop (n + 1) := by
    rw [← drop_eq_getElem_cons hlt, take_append_drop]
  have hmodels := h.models i
  rw [hsplit] at hmodels
  obtain ⟨t', hremove, heff, hdata⟩ := hmodels.remove
  rw [← hsplit] at heff
  refine ⟨s.put i (free t' _), ?_, ⟨_, h.put heff ?_ rfl⟩⟩
  · simp only [StlMap.eraseIterator, hremove, Option.bind_eq_bind, Option.bind_some]
  · rw [hdata]
    show _ = (m i).entries.eraseIdx n
    rw [← h.entries i, eraseIdx_map, eraseIdx_eq_take_drop_succ]
    rfl

theorem clear (h : RefinesBy s m ls) (i : ι) :
    ∃ s', StlMap.clear s i = some s' ∧
      RefinesBy s' (update m i (m i).clear) (update ls i []) := by
  obtain ⟨t', hclear, heff⟩ := (h.models i).clear
  refine ⟨s.put i t', ?_, h.put heff rfl rfl⟩
  simp only [StlMap.clear, hclear, Option.bind_eq_bind, Option.bind_some]

end RefinesBy

/-- Each operation of the source does to the maps what the same operation does
to the ordered maps, and tells the program the same. -/
theorem step_refines [Inhabited V] (A : Allocator α) {s : System ι α K V} {m : ι → OrderedMap K V}
    (h : Refines s m) (op : Op ι K V) :
    ∃ s', step A s op = some (s', (absStep m op).2) ∧ Refines s' (absStep m op).1 := by
  obtain ⟨ls, h⟩ := h
  cases op with
  | insert i x =>
    obtain ⟨s', n, rc, ls', hinsert, href, -, hfind, rfl⟩ := h.insert A i x
    refine ⟨s', ?_, ls', href⟩
    simp only [step, hinsert, Option.bind_eq_bind, Option.bind_some, absStep, hfind,
      Option.getD_some]
  | index i k =>
    obtain ⟨s', n, ls', hindex, href, -, hfind⟩ := h.index A i k
    refine ⟨s', ?_, ls', href⟩
    simp only [step, hindex, Option.bind_eq_bind, Option.bind_some, absStep, hfind,
      Option.getD_some]
  | assign i k x =>
    obtain ⟨s', n, ls', hindex, href, hn, hfind⟩ := h.index A i k
    refine ⟨store s' n x, ?_, ls', ?_⟩
    · simp only [step, hindex, Option.bind_eq_bind, Option.bind_some, absStep]
    · have hstore := href.store hn (by rw [update_self]; exact hfind) x
      rw [update_self, update_idem] at hstore
      exact hstore
  | find i k =>
    obtain ⟨s', n, hfind, href, hdata, hn⟩ := h.find i k
    refine ⟨s', ?_, ls, href⟩
    simp only [step, hfind, Option.bind_eq_bind, Option.bind_some, absStep, hdata, hn]
  | lower_bound i k =>
    obtain ⟨s', hfind, href, hdata, hn⟩ := h.lower_bound i k
    refine ⟨s', ?_, ls, href⟩
    simp only [step, hfind, Option.bind_eq_bind, Option.bind_some, absStep, hdata, hn]
  | erase i k =>
    obtain ⟨s', c, herase, href, rfl⟩ := h.erase i k
    refine ⟨s', ?_, href⟩
    simp only [step, herase, Option.bind_eq_bind, Option.bind_some, absStep]
  | eraseAt i n =>
    have hadvance : advance s i n (begin s i) = some (ls i)[n]? := by
      rw [h.begin_eq]
      exact h.advance_eq (show ls i = [] ++ ls i from rfl) n
    cases ha : (ls i)[n]? with
    | none =>
      have hsame : update m i ((m i).eraseAt n) = m := by
        have hlen : (m i).entries.length ≤ n := by
          rw [← h.entries i, length_map]
          exact List.getElem?_eq_none_iff.mp ha
        have heq : (m i).eraseAt n = m i := OrderedMap.ext rfl (eraseIdx_of_length_le hlen)
        rw [heq, update_eq_self]
      refine ⟨s, ?_, ls, ?_⟩
      · simp only [step, hadvance, ha, Option.bind_eq_bind, Option.bind_some, absStep]
      · show RefinesBy s (update m i ((m i).eraseAt n)) ls
        rw [hsame]
        exact h
    | some a =>
      obtain ⟨s', herase, href⟩ := h.eraseIterator ha
      refine ⟨s', ?_, href⟩
      simp only [step, hadvance, ha, herase, Option.bind_eq_bind, Option.bind_some, absStep]
  | swap i j => exact ⟨swap s i j, rfl, _, h.swap i j⟩
  | clear i =>
    obtain ⟨s', hclear, href⟩ := h.clear i
    refine ⟨s', ?_, _, href⟩
    simp only [step, hclear, Option.bind_eq_bind, Option.bind_some, absStep]
  | iterate i =>
    have hbetween := h.between_eq (show ls i = [] ++ (ls i ++ []) by simp)
      (Nat.le_of_lt (h.contains i).length_lt_fuel)
    rw [append_nil, ← h.begin_eq, h.entries] at hbetween
    refine ⟨s, ?_, ls, h⟩
    simp only [step, absStep]
    show Option.bind (between s i ([] : List α).head? _ _) _ = _
    rw [hbetween]
    rfl

theorem run_refines [Inhabited V] (A : Allocator α) {s : System ι α K V} {m : ι → OrderedMap K V}
    (h : Refines s m) (ops : List (Op ι K V)) :
    ∃ s', run A s ops = some (s', (absRun m ops).2) ∧ Refines s' (absRun m ops).1 := by
  induction ops generalizing s m with
  | nil => exact ⟨s, rfl, h⟩
  | cons op ops ih =>
    obtain ⟨s1, hstep, h1⟩ := step_refines A h op
    obtain ⟨s', hrun, h'⟩ := ih h1
    refine ⟨s', ?_, h'⟩
    simp only [run, hstep, hrun, Option.bind_eq_bind, Option.bind_some, absRun]

/-- The maps before the first insertion.  The memory may hold anything. -/
def start (memory : Mem α) (data : α → K × V) (live : List α) (comps : ι → K → K → Bool) :
    System ι α K V where
  toMem := memory
  data := data
  live := live
  maps i := ⟨Header.empty, comps i⟩

omit [DecidableEq ι] [DecidableEq α] in
theorem start_refines (memory : Mem α) (data : α → K × V) (live : List α)
    (comps : ι → K → K → Bool) (hcomps : ∀ i, StrictWeak (comps i)) :
    Refines (start memory data live comps) fun i => .empty (comps i) (hcomps i) := by
  refine ⟨fun _ => [], fun i => ⟨.nil, ⟨⟨⟨rfl, trivial, .nil⟩, ?_⟩, ?_, rfl⟩, rfl⟩,
    fun _ => rfl, fun _ => rfl, fun _ _ _ a ha => absurd ha not_mem_nil⟩
  · intro a ha
    exact absurd ha not_mem_nil
  · intro s
    cases s <;> rfl

/-- From maps without entries, every sequence of operations on any number of
maps runs to its end, tells the program what the ordered maps tell, and leaves
trees that are linked and ordered as they should be, with exact headers. -/
theorem run_from_start [Inhabited V] (A : Allocator α) (memory : Mem α) (data : α → K × V)
    (live : List α) (comps : ι → { comp : K → K → Bool // StrictWeak comp })
    (ops : List (Op ι K V)) :
    ∃ s', run A (start memory data live fun i => (comps i).1) ops =
        some (s', (absRun (fun i => .empty (comps i).1 (comps i).2) ops).2) ∧
      Refines s' (absRun (fun i => .empty (comps i).1 (comps i).2) ops).1 :=
  run_refines A (start_refines memory data live _ fun i => (comps i).2) ops

/-! ### A small system -/

/-- The next number above the ones in use. -/
def natAllocator : Allocator Nat where
  pick l := l.foldr max 0 + 1
  fresh l := by
    have hle : ∀ x ∈ l, x ≤ l.foldr max 0 := by
      intro x hx
      induction l with
      | nil => exact absurd hx not_mem_nil
      | cons a l ih =>
        rw [foldr_cons]
        rcases mem_cons.mp hx with rfl | hx
        · exact Nat.le_max_left _ _
        · exact Nat.le_trans (ih hx) (Nat.le_max_right _ _)
    intro hmem
    exact Nat.not_succ_le_self _ (hle _ hmem)

/-- The order of the numbers. -/
def natOrder : { comp : Nat → Nat → Bool // StrictWeak comp } where
  val a b := decide (a < b)
  property := by
    refine ⟨fun a => ?_, fun a b c => ?_, fun a b c => ?_⟩ <;> simp <;> omega

/-- Two maps of numbers: `false` has the keys 1 and 3, and `true` has the
keys 3 and 4. -/
def sampleOps : List (Op Bool Nat Nat) :=
  [.insert false (3, 30), .insert false (1, 10), .insert true (4, 40), .insert true (3, 33)]

/-- The system after `sampleOps`. -/
def sampleRun : Option (System Bool Nat Nat Nat × List (Result Nat Nat)) :=
  run natAllocator (start ⟨fun _ => none, fun _ _ => none⟩ (fun _ => (0, 0)) [] fun _ =>
    natOrder.1) sampleOps

/-- The ordered maps after `sampleOps`. -/
def sampleMaps : Bool → OrderedMap Nat Nat :=
  (absRun (fun _ => .empty natOrder.1 natOrder.2) sampleOps).1

theorem sampleRun_isSome : sampleRun.isSome := by decide +kernel

/-- The system after `sampleOps`. -/
def sample : System Bool Nat Nat Nat := (sampleRun.get sampleRun_isSome).1

theorem sample_refines : Refines sample sampleMaps := by
  obtain ⟨s', hrun, href⟩ := run_refines natAllocator
    (start_refines ⟨fun _ => none, fun _ _ => none⟩ (fun _ => ((0, 0) : Nat × Nat)) []
      (fun _ : Bool => natOrder.1) fun _ => natOrder.2) sampleOps
  have hsample : sample = s' := by
    have hget : sampleRun = some (s', _) := hrun
    simp only [sample, hget, Option.get_some]
  rw [hsample]
  exact href

end Hostboot.Util.StlMap
