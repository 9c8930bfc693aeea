import Hostboot.Util.StlMap

/-!
# Iterators of a map

An iterator is a node, or null at the end.  From the null iterator `++` leads to
the first entry and `--` to the last one, so that the iterators of a map go round
in a ring, and a loop from `rbegin()` to `rend()` meets the entries backwards.
-/

namespace Hostboot.Util.StlMap

open Hostboot.Lib Hostboot.Lib.LinkedTree Hostboot.Util.SplayTree List

universe u

variable {ι α K V : Type u} [DecidableEq ι] [DecidableEq α]

/-- `SplayTree::back`, where `rbegin()` stands. -/
def back (s : System ι α K V) (i : ι) : Option α := (s.maps i).iv_tree.child .right

/-- `Iterator::decrement`, which is `RIterator::increment`. -/
def decrement (s : System ι α K V) (i : ι) : Option α → Option (Option α)
  | none => some (back s i)
  | some n => predecessor (s.tree i) n

/-- The entries that a loop with reverse iterators sees from `first` to `rend()`. -/
def backwards (s : System ι α K V) (i : ι) : Nat → Option α → Option (List (K × V))
  | _, none => some []
  | 0, some _ => none
  | fuel + 1, some n => do
    let next ← decrement s i (some n)
    let rest ← backwards s i fuel next
    some (s.data n :: rest)

section Refines

variable {s : System ι α K V} {m : ι → OrderedMap K V} {ls : ι → List α} {i : ι}

omit [DecidableEq ι] [DecidableEq α] in
theorem back_eq (h : RefinesBy s m ls) (i : ι) : back s i = (ls i).getLast? := by
  obtain ⟨sh, hsh, hl⟩ := h.contains i
  have hlast : back s i = (Shape.inorder Side.left.flip sh).head? := hsh.ends .right
  rw [hlast, Shape.inorder_flip, hl, head?_reverse]

omit [DecidableEq ι] in
theorem decrement_eq (h : RefinesBy s m ls) {xs ys : List α} {n : α}
    (hsplit : ls i = xs ++ n :: ys) : decrement s i (some n) = some xs.getLast? := by
  have hcontains := h.contains i
  rw [hsplit] at hcontains
  exact hcontains.predecessor

omit [DecidableEq ι] in
theorem backwards_eq (h : RefinesBy s m ls) {xs ys : List α} {fuel : Nat}
    (hsplit : ls i = xs ++ ys) (hfuel : xs.length ≤ fuel) :
    backwards s i fuel xs.getLast? = some (xs.reverse.map s.data) := by
  induction fuel generalizing xs ys with
  | zero =>
    obtain rfl := eq_nil_of_length_eq_zero (Nat.le_zero.mp hfuel)
    rfl
  | succ fuel ih =>
    rcases eq_nil_or_concat xs with rfl | ⟨xs, a, rfl⟩
    · rfl
    · rw [concat_eq_append] at hsplit hfuel ⊢
      rw [append_assoc] at hsplit
      rw [length_append] at hfuel
      have hdec : decrement s i (some a) = some xs.getLast? := decrement_eq h hsplit
      have hrec := ih hsplit (Nat.le_of_succ_le_succ hfuel)
      rw [getLast?_concat, backwards]
      simp only [hdec, Option.bind_eq_bind, Option.bind_some, hrec]
      simp

omit [DecidableEq ι] in
/-- `++` and `--` undo each other at every iterator, the null one included. -/
theorem ring_eq (h : RefinesBy s m ls) {xs ys : List α} (hsplit : ls i = xs ++ ys) :
    (increment s i ys.head?).bind (decrement s i) = some ys.head? ∧
      (decrement s i ys.head?).bind (increment s i) = some ys.head? := by
  have hfront : increment s i none = some (ls i).head? := congrArg some (h.begin_eq i)
  have hback : decrement s i none = some (ls i).getLast? := congrArg some (back_eq h i)
  cases ys with
  | nil =>
    rw [append_nil] at hsplit
    rw [head?_nil, hfront, hback, Option.bind_some, Option.bind_some]
    constructor
    · cases hls : ls i with
      | nil => rw [head?_nil, hback, hls, getLast?_nil]
      | cons a l => exact decrement_eq h (show ls i = [] ++ a :: l from hls)
    · rcases eq_nil_or_concat (ls i) with hls | ⟨l, a, hls⟩
      · rw [hls, getLast?_nil, hfront, hls, head?_nil]
      · rw [concat_eq_append] at hls
        rw [hls, getLast?_concat]
        exact h.increment_eq hls
  | cons a ys =>
    rw [head?_cons, h.increment_eq hsplit, decrement_eq h hsplit, Option.bind_some,
      Option.bind_some]
    constructor
    · cases ys with
      | nil =>
        rw [head?_nil, hback, hsplit, getLast?_concat]
      | cons b ys =>
        have hnext := decrement_eq h (show ls i = (xs ++ [a]) ++ b :: ys by rw [hsplit]; simp)
        rw [head?_cons, hnext, getLast?_concat]
    · rcases eq_nil_or_concat xs with rfl | ⟨xs, b, rfl⟩
      · rw [getLast?_nil, hfront, hsplit, nil_append, head?_cons]
      · rw [concat_eq_append] at hsplit ⊢
        rw [append_assoc] at hsplit
        rw [getLast?_concat]
        exact h.increment_eq hsplit

end Refines

/-- After every sequence of operations on maps that had no entries, a loop from
`rbegin()` to `rend()` sees the entries of a map backwards, and `++` and `--` undo
each other at every iterator that a loop from `begin()` gets to. -/
theorem iterators_of_run [Inhabited V] (A : Allocator α) (memory : Mem α) (data : α → K × V)
    (live : List α) (comps : ι → { comp : K → K → Bool // StrictWeak comp })
    (ops : List (Op ι K V)) (i : ι) :
    ∃ s' rs m, run A (start memory data live fun i => (comps i).1) ops = some (s', rs) ∧
      m = (absRun (fun i => .empty (comps i).1 (comps i).2) ops).1 i ∧
      backwards s' i (s'.tree i).fuel (back s' i) = some m.entries.reverse ∧
      ∀ n, ∃ it, advance s' i n (begin s' i) = some it ∧ it.map s'.data = m.entries[n]? ∧
        (increment s' i it).bind (decrement s' i) = some it ∧
        (decrement s' i it).bind (increment s' i) = some it := by
  obtain ⟨s', hrun, ls, h⟩ := run_from_start A memory data live comps ops
  have hentries := h.entries i
  refine ⟨s', _, _, hrun, rfl, ?_, fun n => ?_⟩
  · rw [back_eq h, backwards_eq h (append_nil (ls i)).symm, ← hentries, map_reverse]
    exact (h.contains i).length_lt_fuel.le
  · refine ⟨(ls i)[n]?, ?_, ?_, ?_⟩
    · rw [h.begin_eq]
      exact h.advance_eq (nil_append (ls i)).symm n
    · rw [← hentries, getElem?_map]
    · rw [← head?_drop]
      exact ring_eq h (take_append_drop n (ls i)).symm

/-! ## The range of a key

`Map::upper_bound` asks for the lower bound.  The tree has the other search too. -/

section Range

variable {s : System ι α K V} {m : ι → OrderedMap K V} {ls : ι → List α}

omit [DecidableEq ι] [DecidableEq α] in
theorem exists_divides_nodes (h : RefinesBy s m ls) (i : ι) (k : K) :
    ∃ xs mid ys, ls i = xs ++ (mid ++ ys) ∧
      Divides (m i).comp (fun a => (s.data a).1) k xs mid ys := by
  obtain ⟨xs, mid, ys, hsplit, hdiv, -⟩ := (m i).exists_divides k
  rw [← h.entries i, append_assoc] at hsplit
  obtain ⟨xs', rest, hls, rfl, hrest⟩ := map_eq_append_iff.mp hsplit
  obtain ⟨mid', ys', rfl, rfl, rfl⟩ := map_eq_append_iff.mp hrest
  exact ⟨xs', mid', ys', hls, ⟨fun b hb => hdiv.lt _ (mem_map_of_mem hb),
    fun b hb => hdiv.eq _ (mem_map_of_mem hb), fun b hb => hdiv.gt _ (mem_map_of_mem hb)⟩⟩

theorem range_eq (h : RefinesBy s m ls) (i : ι) (k : K) :
    ∃ s1 first t last, lower_bound s i k = some (s1, first) ∧
      upper_bound_by_value (s1.comp i) (s1.tree i) k = some (t, last) ∧
      RefinesBy (s1.put i t) m ls ∧ last.map t.data = (m i).upperBound k ∧
      between (s1.put i t) i last t.fuel first =
        some ((m i).entries.filter fun e => equiv (m i).comp k e.1) := by
  obtain ⟨s1, hlower, h1, hdata1, -⟩ := h.lower_bound i k
  have hmodels := h1.models i
  obtain ⟨t, hupper, hcontains, hrel⟩ :=
    hmodels.contains.upper_bound_by_value (m i).strict hmodels.sorted k
  rw [← h1.comp i] at hupper
  have hdata : t.data = s.data := hrel.data.trans hdata1
  have h2 := h1.put_self (.of_relinks hcontains hrel) hrel.data
  obtain ⟨xs, mid, ys, hsplit, hdiv⟩ := exists_divides_nodes h i k
  have hstrict := (m i).strict
  have hfirst : ((ls i).find? fun a => !(m i).comp (s.data a).1 k) = (mid ++ ys).head? := by
    rw [hsplit, ← append_assoc]
    exact hdiv.find?_not_lt hstrict
  have hlast : ((ls i).find? fun a => s1.comp i k ((s1.tree i).key a)) = ys.head? := by
    rw [hsplit, ← append_assoc, h1.comp i]
    show ((xs ++ mid ++ ys).find? fun a => (m i).comp k (s1.data a).1) = ys.head?
    rw [hdata1]
    exact hdiv.find?_gt hstrict
  rw [hfirst] at hlower
  rw [hlast] at hupper
  -- The entries, divided as the nodes are.
  have hentries : (m i).entries = xs.map s.data ++ mid.map s.data ++ ys.map s.data := by
    rw [← h.entries i, hsplit, map_append, map_append, append_assoc]
  have hdiv' : Divides (m i).comp Prod.fst k (xs.map s.data) (mid.map s.data) (ys.map s.data) :=
    hdiv.map fun _ => rfl
  refine ⟨s1, _, t, _, hlower, hupper, h2, ?_, ?_⟩
  · rw [hdata, OrderedMap.upperBound_of_divides hentries hdiv', head?_map]
  · have hlen : mid.length ≤ t.fuel := by
      have hlt := hcontains.length_lt_fuel
      rw [hsplit, length_append, length_append] at hlt
      omega
    rw [h2.between_eq hsplit hlen, hentries, hdiv'.filter_equiv]
    show some (mid.map t.data) = some (mid.map s.data)
    rw [hdata]

end Range

/-- With the upper bound that the tree finds, the range of a key has exactly the
entries with the key, in every map that a program can build. -/
theorem range_of_run [Inhabited V] (A : Allocator α) (memory : Mem α) (data : α → K × V)
    (live : List α) (comps : ι → { comp : K → K → Bool // StrictWeak comp })
    (ops : List (Op ι K V)) (i : ι) (k : K) :
    ∃ s rs m s1 first t last,
      run A (start memory data live fun i => (comps i).1) ops = some (s, rs) ∧
      m = (absRun (fun i => .empty (comps i).1 (comps i).2) ops).1 ∧
      lower_bound s i k = some (s1, first) ∧
      upper_bound_by_value (s1.comp i) (s1.tree i) k = some (t, last) ∧
      Refines (s1.put i t) m ∧ last.map t.data = (m i).upperBound k ∧
      between (s1.put i t) i last t.fuel first =
        some ((m i).entries.filter fun e => equiv (m i).comp k e.1) := by
  obtain ⟨s, hrun, ls, h⟩ := run_from_start A memory data live comps ops
  obtain ⟨s1, first, t, last, hlower, hupper, href, hlast, hrange⟩ := range_eq h i k
  exact ⟨s, _, _, s1, first, t, last, hrun, rfl, hlower, hupper, ⟨ls, href⟩, hlast, hrange⟩

end Hostboot.Util.StlMap
