import Hostboot.Lib.WeakOrder
import Mathlib.Data.List.Basic
import Mathlib.Data.List.TakeWhile

/-!
# Finite ordered maps

An `OrderedMap` is a list of entries whose keys are in strictly increasing
order, together with that order.  It is what a map is for: inserting keeps an
entry whose key is there already, and the lookups find entries by their keys.

Each operation is written on the whole list, by what the keys say.  For a list
that is divided by a key, the lemmas of `Divides` turn it into what happens at
the one place where the key belongs.
-/

namespace Hostboot.Lib

open List

variable {κ ν : Type*}

/-- Entries with strictly increasing keys. -/
structure OrderedMap (κ ν : Type*) where
  comp : κ → κ → Bool
  strict : StrictWeak comp
  entries : List (κ × ν)
  sorted : entries.Pairwise fun a b => comp a.1 b.1 = true

namespace OrderedMap

/-- The map without entries. -/
def empty (comp : κ → κ → Bool) (strict : StrictWeak comp) : OrderedMap κ ν :=
  ⟨comp, strict, [], .nil⟩

/-- The entry with the key. -/
def find (m : OrderedMap κ ν) (k : κ) : Option (κ × ν) :=
  m.entries.find? fun e => equiv m.comp k e.1

/-- The first entry whose key is not before `k`. -/
def lowerBound (m : OrderedMap κ ν) (k : κ) : Option (κ × ν) :=
  m.entries.find? fun e => !m.comp e.1 k

/-- The first entry whose key is behind `k`. -/
def upperBound (m : OrderedMap κ ν) (k : κ) : Option (κ × ν) :=
  m.entries.find? fun e => m.comp k e.1

/-- The entries before `v`, then `v`, then the entries behind it. -/
def insertNew (m : OrderedMap κ ν) (v : κ × ν) : OrderedMap κ ν where
  comp := m.comp
  strict := m.strict
  entries := m.entries.filter (fun e => m.comp e.1 v.1) ++
    v :: m.entries.filter fun e => m.comp v.1 e.1
  sorted := by
    refine pairwise_append.mpr ⟨m.sorted.filter _, pairwise_cons.mpr ⟨?_,
      m.sorted.filter _⟩, ?_⟩
    · intro e he
      exact (mem_filter.mp he).2
    · intro e he e' he'
      have hlt := (mem_filter.mp he).2
      rcases mem_cons.mp he' with rfl | he'
      · exact hlt
      · exact m.strict.trans _ _ _ hlt (mem_filter.mp he').2

/-- An entry whose key is there already stays as it is. -/
def insert (m : OrderedMap κ ν) (v : κ × ν) : OrderedMap κ ν :=
  if (m.find v.1).isSome then m else m.insertNew v

/-- The map without the key. -/
def erase (m : OrderedMap κ ν) (k : κ) : OrderedMap κ ν where
  comp := m.comp
  strict := m.strict
  entries := m.entries.filter fun e => !equiv m.comp k e.1
  sorted := m.sorted.filter _

/-- The map without the entry at a position. -/
def eraseAt (m : OrderedMap κ ν) (i : Nat) : OrderedMap κ ν where
  comp := m.comp
  strict := m.strict
  entries := m.entries.eraseIdx i
  sorted := m.sorted.sublist (eraseIdx_sublist ..)

/-- Another value for the key, where the map has it. -/
def set (m : OrderedMap κ ν) (k : κ) (x : ν) : OrderedMap κ ν where
  comp := m.comp
  strict := m.strict
  entries := m.entries.map fun e => if equiv m.comp k e.1 then (e.1, x) else e
  sorted := by
    refine pairwise_map.mpr (m.sorted.imp fun {a b} hab => ?_)
    split <;> split <;> exact hab

/-- The map without entries, in the same order of keys. -/
def clear (m : OrderedMap κ ν) : OrderedMap κ ν := empty m.comp m.strict

@[ext] theorem ext {m m' : OrderedMap κ ν} (hcomp : m.comp = m'.comp)
    (hentries : m.entries = m'.entries) : m = m' := by
  cases m
  cases m'
  cases hcomp
  cases hentries
  rfl

@[simp] theorem insert_comp (m : OrderedMap κ ν) (v : κ × ν) : (m.insert v).comp = m.comp := by
  unfold insert
  split <;> rfl

variable {m : OrderedMap κ ν} {k : κ} {v : κ × ν} {xs mid ys : List (κ × ν)}

/-- Every key divides the entries, and there is at most one entry with the key. -/
theorem exists_divides (m : OrderedMap κ ν) (k : κ) :
    ∃ xs mid ys, m.entries = xs ++ mid ++ ys ∧ Divides m.comp Prod.fst k xs mid ys ∧
      mid.length ≤ 1 := by
  have hsorted := m.sorted
  have hsplit : m.entries = m.entries.takeWhile (fun e => m.comp e.1 k) ++
      m.entries.dropWhile fun e => m.comp e.1 k := takeWhile_append_dropWhile.symm
  have hlt : ∀ e ∈ m.entries.takeWhile fun e => m.comp e.1 k, m.comp e.1 k = true := fun e he =>
    mem_takeWhile_imp (p := fun e : κ × ν => m.comp e.1 k) he
  cases hdrop : m.entries.dropWhile fun e => m.comp e.1 k with
  | nil =>
    rw [hdrop] at hsplit
    exact ⟨_, [], [], by rw [append_nil]; exact hsplit, ⟨hlt,
      fun e he => absurd he not_mem_nil, fun e he => absurd he not_mem_nil⟩, by simp⟩
  | cons e es =>
    have hne : m.comp e.1 k = false := by
      have hhead := head?_dropWhile_not (fun e => m.comp e.1 k) m.entries
      rw [hdrop] at hhead
      simpa using hhead
    rw [hdrop] at hsplit
    rw [hsplit] at hsorted
    cases hke : m.comp k e.1 with
    | true =>
      refine ⟨_, [], e :: es, by rw [append_nil]; exact hsplit, ⟨hlt,
        fun e he => absurd he not_mem_nil, fun b hb => ?_⟩, by simp⟩
      rcases mem_cons.mp hb with rfl | hb
      · exact hke
      · exact m.strict.trans _ _ _ hke
          ((pairwise_cons.mp (pairwise_append.mp hsorted).2.1).1 b hb)
    | false =>
      refine ⟨_, [e], es, ?_, .of_split m.strict hsorted (equiv_iff.mpr ⟨hke, hne⟩), by simp⟩
      rw [append_assoc]
      exact hsplit

theorem find_of_divides (hsplit : m.entries = xs ++ mid ++ ys)
    (h : Divides m.comp Prod.fst k xs mid ys) : m.find k = mid.head? := by
  rw [find, hsplit]
  exact h.find?_equiv

theorem lowerBound_of_divides (hsplit : m.entries = xs ++ mid ++ ys)
    (h : Divides m.comp Prod.fst k xs mid ys) : m.lowerBound k = (mid ++ ys).head? := by
  rw [lowerBound, hsplit]
  exact h.find?_not_lt m.strict

theorem upperBound_of_divides (hsplit : m.entries = xs ++ mid ++ ys)
    (h : Divides m.comp Prod.fst k xs mid ys) : m.upperBound k = ys.head? := by
  rw [upperBound, hsplit]
  exact h.find?_gt m.strict

theorem insert_of_divides (hsplit : m.entries = xs ++ mid ++ ys)
    (h : Divides m.comp Prod.fst v.1 xs mid ys) :
    (m.insert v).entries = if mid = [] then xs ++ v :: ys else m.entries := by
  cases mid with
  | nil =>
    rw [insert, find_of_divides hsplit h, if_pos rfl]
    show m.entries.filter (fun e => m.comp e.1 v.1) ++
      v :: m.entries.filter (fun e => m.comp v.1 e.1) = _
    rw [hsplit]
    have hlt := h.filter_lt m.strict
    have hgt := h.filter_gt m.strict
    rw [hlt, hgt]
  | cons e mid =>
    rw [insert, find_of_divides hsplit h]
    rfl

theorem erase_of_divides (hsplit : m.entries = xs ++ mid ++ ys)
    (h : Divides m.comp Prod.fst k xs mid ys) : (m.erase k).entries = xs ++ ys := by
  show m.entries.filter (fun e => !equiv m.comp k e.1) = _
  rw [hsplit]
  exact h.filter_not_equiv

/-! ## Inserting many entries -/

/-- None of the entries has a key that is in the map, or that another has. -/
def New (m : OrderedMap κ ν) (vs : List (κ × ν)) : Prop :=
  (∀ v ∈ vs, m.find v.1 = none) ∧ vs.Pairwise fun v w => equiv m.comp v.1 w.1 = false

/-- The entries one by one. -/
def insertAll (m : OrderedMap κ ν) (vs : List (κ × ν)) : OrderedMap κ ν := vs.foldl insert m

theorem insert_of_find {e : κ × ν} (h : m.find v.1 = some e) : m.insert v = m := by
  rw [insert, h]
  rfl

theorem find_insert_eq_none_iff (h : m.find v.1 = none) :
    (m.insert v).find k = none ↔ m.find k = none ∧ equiv m.comp v.1 k = false := by
  obtain ⟨xs, mid, ys, hsplit, hdiv, -⟩ := m.exists_divides v.1
  obtain rfl : mid = [] := by
    rw [find_of_divides hsplit hdiv] at h
    exact head?_eq_none_iff.mp h
  rw [find, find, insert_comp, insert_of_divides hsplit hdiv, if_pos rfl, hsplit,
    find?_eq_none, find?_eq_none]
  have hsymm : equiv m.comp k v.1 = equiv m.comp v.1 k := Bool.and_comm _ _
  simp only [append_nil, mem_append, mem_cons, Bool.not_eq_true]
  constructor
  · intro hall
    refine ⟨fun e he => hall e ?_, ?_⟩
    · tauto
    · rw [← hsymm]
      exact hall v (by tauto)
  · rintro ⟨hall, hv⟩ e he
    rcases he with he | rfl | he
    · exact hall e (.inl he)
    · rw [hsymm]
      exact hv
    · exact hall e (.inr he)

theorem length_insert (m : OrderedMap κ ν) (v : κ × ν) :
    (m.insert v).entries.length = m.entries.length + if m.find v.1 = none then 1 else 0 := by
  cases hfind : m.find v.1 with
  | some e => simp [insert_of_find hfind]
  | none =>
    obtain ⟨xs, mid, ys, hsplit, hdiv, -⟩ := m.exists_divides v.1
    obtain rfl : mid = [] := by
      rw [find_of_divides hsplit hdiv] at hfind
      exact head?_eq_none_iff.mp hfind
    rw [insert_of_divides hsplit hdiv, if_pos rfl, hsplit]
    simp
    omega

theorem new_cons_iff {vs : List (κ × ν)} :
    New m (v :: vs) ↔ m.find v.1 = none ∧ New (m.insert v) vs := by
  constructor
  · rintro ⟨hfind, hpair⟩
    have hv := hfind v mem_cons_self
    refine ⟨hv, fun w hw => (find_insert_eq_none_iff hv).mpr ⟨hfind w (mem_cons_of_mem _ hw),
      (pairwise_cons.mp hpair).1 w hw⟩, ?_⟩
    rw [insert_comp]
    exact (pairwise_cons.mp hpair).2
  · rintro ⟨hv, hfind, hpair⟩
    have hboth := fun w hw => (find_insert_eq_none_iff hv).mp (hfind w hw)
    rw [insert_comp] at hpair
    refine ⟨fun w hw => ?_, pairwise_cons.mpr ⟨fun w hw => (hboth w hw).2, hpair⟩⟩
    rcases mem_cons.mp hw with rfl | hw
    · exact hv
    · exact (hboth w hw).1

theorem length_insertAll_le (m : OrderedMap κ ν) (vs : List (κ × ν)) :
    (m.insertAll vs).entries.length ≤ m.entries.length + vs.length := by
  induction vs generalizing m with
  | nil => exact Nat.le_refl _
  | cons v vs ih =>
    have hrec := ih (m.insert v)
    rw [length_insert] at hrec
    show ((m.insert v).insertAll vs).entries.length ≤ m.entries.length + (vs.length + 1)
    split at hrec <;> omega

theorem length_insertAll_eq_iff (m : OrderedMap κ ν) (vs : List (κ × ν)) :
    (m.insertAll vs).entries.length = m.entries.length + vs.length ↔ New m vs := by
  induction vs generalizing m with
  | nil => exact ⟨fun _ => ⟨fun v hv => absurd hv not_mem_nil, .nil⟩, fun _ => rfl⟩
  | cons v vs ih =>
    have hle := length_insertAll_le (m.insert v) vs
    have hone := length_insert m v
    rw [new_cons_iff, ← ih (m.insert v)]
    show ((m.insert v).insertAll vs).entries.length = m.entries.length + (vs.length + 1) ↔ _
    cases hfind : m.find v.1 with
    | none =>
      rw [hfind, if_pos rfl] at hone
      simp only [true_and]
      omega
    | some e =>
      rw [hfind, if_neg (by simp)] at hone
      simp only [reduceCtorEq, false_and, iff_false]
      omega

theorem insertAll_sorted {vs : List (κ × ν)}
    (h : (m.entries ++ vs).Pairwise fun a b => m.comp a.1 b.1 = true) :
    New m vs ∧ (m.insertAll vs).entries = m.entries ++ vs := by
  induction vs generalizing m with
  | nil =>
    exact ⟨⟨fun v hv => absurd hv not_mem_nil, .nil⟩, (append_nil _).symm⟩
  | cons v vs ih =>
    have hlt : ∀ e ∈ m.entries, m.comp e.1 v.1 = true := fun e he =>
      (pairwise_append.mp h).2.2 e he v mem_cons_self
    have hdiv : Divides m.comp Prod.fst v.1 m.entries [] [] :=
      ⟨hlt, fun b hb => absurd hb not_mem_nil, fun b hb => absurd hb not_mem_nil⟩
    have hsplit : m.entries = m.entries ++ [] ++ [] := by simp
    have hv : m.find v.1 = none := find_of_divides hsplit hdiv
    have hentries : (m.insert v).entries = m.entries ++ [v] := by
      rw [insert_of_divides hsplit hdiv, if_pos rfl]
    have hrec := ih (m := m.insert v) (by
      rw [hentries, insert_comp, append_assoc]
      exact h)
    refine ⟨new_cons_iff.2 ⟨hv, hrec.1⟩, ?_⟩
    show ((m.insert v).insertAll vs).entries = _
    rw [hrec.2, hentries, append_assoc]
    rfl

theorem find_ne_none_of_mem {e : κ × ν} (he : e ∈ m.entries) : m.find e.1 ≠ none := by
  rw [find, ne_eq, find?_eq_none]
  intro hall
  exact hall e he (m.strict.equiv_refl e.1)

theorem insertAll_of_find {vs : List (κ × ν)} (h : ∀ v ∈ vs, m.find v.1 ≠ none) :
    m.insertAll vs = m := by
  induction vs with
  | nil => rfl
  | cons v vs ih =>
    obtain ⟨e, he⟩ := Option.ne_none_iff_exists'.mp (h v mem_cons_self)
    show (m.insert v).insertAll vs = m
    rw [insert_of_find he]
    exact ih fun w hw => h w (mem_cons_of_mem _ hw)

@[simp] theorem insertAll_comp (m : OrderedMap κ ν) (vs : List (κ × ν)) :
    (m.insertAll vs).comp = m.comp := by
  induction vs generalizing m with
  | nil => rfl
  | cons v vs ih => exact (ih (m.insert v)).trans (insert_comp m v)

end OrderedMap

end Hostboot.Lib
