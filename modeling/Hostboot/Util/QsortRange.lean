import Hostboot.Lib.WeakOrder
import Hostboot.Util.Qsort

/-!
# The quick sort in place

`Qsort` says what the sort does to the list of the elements.  Here it works on the
storage, as the source does: a range is a pair of positions in the storage, and
every access to an element is checked against the range that the call was given.
An access outside that range has no result.

The overload for `operator<` has the same body as the one with a comparison, with
`a < b` for `pred(a, b)`, so `pred` stands for either.
-/

namespace Hostboot.Util.QSort

open Hostboot.Lib List

variable {T : Type*}

/-! ## The functions of the source -/

/-- `*i`, by a call for the range from `first` to `last`. -/
def deref (first last : Nat) (a : List T) (i : Nat) : Option T :=
  if first ≤ i ∧ i < last then a[i]? else none

/-- `std::swap(*i, *j)`. -/
def swap (first last : Nat) (a : List T) (i j : Nat) : Option (List T) := do
  let x ← deref first last a i
  let y ← deref first last a j
  some ((a.set i y).set j x)

/-- One round of the partitioning loop.  The result is the storage and `division`. -/
def partitionStep (pred : T → T → Bool) (first last pivot : Nat) (a : List T)
    (division pos : Nat) : Option (List T × Nat) := do
  let x ← deref first last a pos
  let p ← deref first last a pivot
  if pred x p then
    if pos ≠ division then do
      let a ← swap first last a pos division
      some (a, division + 1)
    else some (a, division + 1)
  else some (a, division)

/-- The partitioning loop.  It has no result where it does not reach the pivot within
`fuel` rounds. -/
def partitionRange (pred : T → T → Bool) (first last pivot : Nat) :
    Nat → List T → Nat → Nat → Option (List T × Nat)
  | 0, a, division, pos => if pos = pivot then some (a, division) else none
  | fuel + 1, a, division, pos =>
    if pos = pivot then some (a, division)
    else do
      let (a, division) ← partitionStep pred first last pivot a division pos
      partitionRange pred first last pivot fuel a division (pos + 1)

/-- The pivot moves down to the division line. -/
def movePivot (first last : Nat) (a : List T) (pivot division : Nat) : Option (List T) :=
  if pivot ≠ division then swap first last a pivot division else some a

/-- `sort` of a range of two elements. -/
def sortTwo (pred : T → T → Bool) (first last : Nat) (a : List T) : Option (List T) := do
  let next := first + 1
  let y ← deref first last a next
  let x ← deref first last a first
  if pred y x then swap first last a first next else some a

/-- `sort`.  The recursion may go `fuel` calls deep. -/
def sortRange (pred : T → T → Bool) : Nat → List T → Nat → Nat → Option (List T)
  | 0, _, _, _ => none
  | fuel + 1, a, first, last =>
    let length := last - first
    if length = 0 ∨ length = 1 then some a
    else if length = 2 then sortTwo pred first last a
    else do
      let pivot := first + (length - 1)
      let middle := first + length / 2
      let a ← swap first last a pivot middle
      let (a, division) ← partitionRange pred first last pivot length a first first
      let a ← movePivot first last a pivot division
      let a ← sortRange pred fuel a first division
      sortRange pred fuel a (division + 1) last

/-! ## Exchanges -/

variable {pred : T → T → Bool} {first last : Nat}

variable {p r q s : List T} {x y v : T} {pivot : Nat}

theorem deref_middle (hfirst : first ≤ p.length) (hlast : p.length < last) :
    deref first last (p ++ x :: r) p.length = some x := by
  rw [deref, if_pos ⟨hfirst, hlast⟩, getElem?_append_right (Nat.le_refl _), Nat.sub_self]
  rfl

theorem deref_behind (hfirst : first ≤ p.length) (hlast : p.length + q.length + 1 < last) :
    deref first last (p ++ x :: (q ++ y :: r)) (p.length + q.length + 1) = some y := by
  have hlen : (p ++ x :: q).length = p.length + q.length + 1 := by
    simp only [length_append, length_cons]
    omega
  have hmid : deref first last ((p ++ x :: q) ++ y :: r) (p ++ x :: q).length = some y :=
    deref_middle (by omega) (by omega)
  rw [hlen] at hmid
  simpa only [append_assoc, cons_append] using hmid

theorem set_middle (p r : List T) (x y : T) : (p ++ x :: r).set p.length y = p ++ y :: r := by
  rw [set_append_right _ _ (Nat.le_refl _), Nat.sub_self, set_cons_zero]

theorem set_behind (p q r : List T) (x y z : T) :
    (p ++ x :: (q ++ y :: r)).set (p.length + q.length + 1) z = p ++ x :: (q ++ z :: r) := by
  have hlen : (p ++ x :: q).length = p.length + q.length + 1 := by
    simp only [length_append, length_cons]
    omega
  have hmid := set_middle (p ++ x :: q) r y z
  rw [hlen] at hmid
  simpa only [append_assoc, cons_append] using hmid

theorem swap_near (hfirst : first ≤ p.length) (hlast : p.length + q.length + 1 < last) :
    swap first last (p ++ x :: (q ++ y :: r)) p.length (p.length + q.length + 1)
      = some (p ++ y :: (q ++ x :: r)) := by
  rw [swap, deref_middle hfirst (by omega), deref_behind hfirst hlast]
  simp only [Option.bind_eq_bind, Option.bind_some]
  rw [set_middle, set_behind]

theorem swap_far (hfirst : first ≤ p.length) (hlast : p.length + q.length + 1 < last) :
    swap first last (p ++ x :: (q ++ y :: r)) (p.length + q.length + 1) p.length
      = some (p ++ y :: (q ++ x :: r)) := by
  rw [swap, deref_middle hfirst (by omega), deref_behind hfirst hlast]
  simp only [Option.bind_eq_bind, Option.bind_some]
  rw [set_behind, set_middle]

/-! ## The partitioning loop -/

/-- One round over `x`: `division` stands behind `less`, and `pos` behind `rest`. -/
theorem partitionStep_eq {less rest xs : List T} {division pos : Nat} (hfirst : first ≤ p.length)
    (hdivision : division = p.length + less.length) (hpos : pos = division + rest.length)
    (hpivot : pivot = pos + xs.length + 1) (hlast : pivot < last) :
    partitionStep pred first last pivot (p ++ less ++ rest ++ x :: (xs ++ v :: s)) division pos
      = some (if pred x v then
          (p ++ (less ++ [x]) ++ (match rest with
            | [] => []
            | y :: rest => rest ++ [y]) ++ xs ++ v :: s, division + 1)
        else (p ++ less ++ (rest ++ [x]) ++ xs ++ v :: s, division)) := by
  have hlen : (p ++ less ++ rest).length = pos := by
    simp only [length_append]
    omega
  have hx : deref first last (p ++ less ++ rest ++ x :: (xs ++ v :: s)) pos = some x := by
    rw [← hlen]
    exact deref_middle (by omega) (by omega)
  have hv : deref first last (p ++ less ++ rest ++ x :: (xs ++ v :: s)) pivot = some v := by
    rw [hpivot, ← hlen]
    exact deref_behind (by omega) (by omega)
  simp only [partitionStep, hx, hv, Option.bind_eq_bind, Option.bind_some]
  by_cases hless : pred x v = true
  · rw [if_pos hless, if_pos hless]
    cases rest with
    | nil =>
      rw [if_neg (by simp only [length_nil] at hpos; omega)]
      simp only [append_assoc, append_nil, nil_append, cons_append]
    | cons y rest =>
      rw [length_cons] at hpos
      have hnear : (p ++ less).length = division := by
        rw [length_append]
        omega
      have hswap : swap first last ((p ++ less) ++ y :: (rest ++ x :: (xs ++ v :: s)))
          ((p ++ less).length + rest.length + 1) (p ++ less).length = some _ :=
        swap_far (by omega) (by omega)
      rw [hnear, show division + rest.length + 1 = pos by omega] at hswap
      rw [if_pos (by omega)]
      simp only [append_assoc, cons_append] at hswap ⊢
      simp only [hswap, Option.bind_some, nil_append]
  · rw [if_neg hless, if_neg hless]
    simp only [append_assoc, cons_append, nil_append]

/-- The loop leaves the two parts that `partition` builds, and `division` between
them. -/
theorem partitionRange_eq (hfirst : first ≤ p.length) (hlast : pivot < last) (less rest xs : List T)
    (division pos fuel : Nat) (hdivision : division = p.length + less.length)
    (hpos : pos = division + rest.length) (hpivot : pivot = pos + xs.length)
    (hfuel : xs.length ≤ fuel) :
    partitionRange pred first last pivot fuel (p ++ less ++ rest ++ (xs ++ v :: s)) division pos
      = some (p ++ (partition pred v less rest xs).1 ++ (partition pred v less rest xs).2
            ++ v :: s, p.length + (partition pred v less rest xs).1.length) := by
  induction xs generalizing less rest division pos fuel with
  | nil =>
    rw [length_nil, Nat.add_zero] at hpivot
    have hdone : partitionRange pred first last pivot fuel (p ++ less ++ rest ++ ([] ++ v :: s))
        division pos = some (p ++ less ++ rest ++ ([] ++ v :: s), division) := by
      cases fuel with
      | zero => rw [partitionRange, if_pos hpivot.symm]
      | succ fuel => rw [partitionRange, if_pos hpivot.symm]
    rw [hdone, hdivision]
    rfl
  | cons x xs ih =>
    rw [length_cons] at hpivot hfuel
    obtain ⟨fuel, rfl⟩ := Nat.exists_eq_add_of_lt (show 0 < fuel by omega)
    rw [show 0 + fuel + 1 = fuel + 1 by omega, partitionRange,
      if_neg (show ¬ pos = pivot by omega), cons_append,
      partitionStep_eq hfirst hdivision hpos (by omega) hlast]
    simp only [Option.bind_eq_bind, Option.bind_some]
    by_cases hless : pred x v = true
    · rw [if_pos hless]
      cases rest with
      | nil =>
        simp only [partition, if_pos hless]
        simp only [length_nil, Nat.add_zero] at hpos
        have hrest := ih (less ++ [x]) [] (division + 1) (pos + 1) fuel
          (by simp; omega) (by simp; omega) (by omega) (by omega)
        simpa only [append_assoc] using hrest
      | cons y rest =>
        simp only [partition, if_pos hless]
        simp only [length_cons] at hpos
        have hrest := ih (less ++ [x]) (rest ++ [y]) (division + 1) (pos + 1) fuel
          (by simp; omega) (by simp; omega) (by omega) (by omega)
        simpa only [append_assoc] using hrest
    · rw [if_neg hless]
      have hstay : partition pred v less rest (x :: xs)
          = partition pred v less (rest ++ [x]) xs := by
        cases rest <;> simp only [partition, if_neg hless]
      rw [hstay]
      have hrest := ih less (rest ++ [x]) division (pos + 1) fuel hdivision
        (by simp; omega) (by omega) (by omega)
      simpa only [append_assoc] using hrest

theorem movePivot_eq {less rest : List T} {division : Nat} (hfirst : first ≤ p.length)
    (hdivision : division = p.length + less.length) (hpivot : pivot = division + rest.length)
    (hlast : pivot < last) :
    movePivot first last (p ++ less ++ rest ++ v :: s) pivot division
      = some (p ++ less ++ v :: (behind rest ++ s)) := by
  rw [movePivot]
  cases rest with
  | nil =>
    rw [length_nil] at hpivot
    rw [if_neg (by omega), append_nil]
    rfl
  | cons y rest =>
    rw [length_cons] at hpivot
    have hnear : (p ++ less).length = division := by
      rw [length_append]
      omega
    have hswap : swap first last ((p ++ less) ++ y :: (rest ++ v :: s))
        ((p ++ less).length + rest.length + 1) (p ++ less).length = some _ :=
      swap_far (by omega) (by omega)
    rw [hnear, show division + rest.length + 1 = pivot by omega] at hswap
    rw [if_pos (by omega), behind]
    simpa only [append_assoc, cons_append, nil_append] using hswap

/-! ## The sort -/

theorem exists_middle {l : List T} (hlen : 3 ≤ l.length) :
    ∃ q m r z, l = q ++ m :: (r ++ [z]) ∧ q.length = l.length / 2 := by
  have hmid : l.length / 2 < l.length := by omega
  have hsplit : l = l.take (l.length / 2) ++ l[l.length / 2] :: l.drop (l.length / 2 + 1) := by
    rw [← drop_eq_getElem_cons hmid, take_append_drop]
  have htail : l.drop (l.length / 2 + 1) ≠ [] := by
    intro hnil
    have := drop_eq_nil_iff.mp hnil
    omega
  refine ⟨l.take (l.length / 2), l[l.length / 2], (l.drop (l.length / 2 + 1)).dropLast,
    (l.drop (l.length / 2 + 1)).getLast htail, ?_, ?_⟩
  · rw [dropLast_append_getLast htail]
    exact hsplit
  · rw [length_take]
    omega

/-- The sort of the list, by its element in the middle and its last one. -/
theorem sort_eq (pred : T → T → Bool) {m z : T} (hq : q.length = (q ++ m :: (r ++ [z])).length / 2)
    (hlen : q ≠ []) :
    sort pred (q ++ m :: (r ++ [z]))
      = sort pred (partition pred m [] [] (q ++ z :: r)).1
        ++ m :: sort pred (behind (partition pred m [] [] (q ++ z :: r)).2) := by
  have hpivot : ∀ d, (q ++ m :: (r ++ [z])).getD ((q ++ m :: (r ++ [z])).length / 2) d = m := by
    intro d
    rw [← hq, getD_eq_getElem?_getD, getElem?_append_right (Nat.le_refl _),
      Nat.sub_self]
    rfl
  have hbody : ∀ d, body (q ++ m :: (r ++ [z])) d = q ++ z :: r := by
    intro d
    have hassoc : q ++ m :: (r ++ [z]) = (q ++ m :: r) ++ [z] := by
      rw [append_assoc, cons_append]
    rw [body, ← hq, hassoc, dropLast_concat, getLastD_concat, set_middle]
  obtain ⟨a, b, c, l, hl⟩ : ∃ a b c l, q ++ m :: (r ++ [z]) = a :: b :: c :: l := by
    cases q with
    | nil => exact absurd rfl hlen
    | cons a q =>
      cases q with
      | nil =>
        cases r with
        | nil => exact ⟨a, m, z, [], rfl⟩
        | cons b r => exact ⟨a, m, b, r ++ [z], rfl⟩
      | cons b q =>
        cases q with
        | nil => exact ⟨a, b, m, r ++ [z], rfl⟩
        | cons c q => exact ⟨a, b, c, q ++ m :: (r ++ [z]), rfl⟩
  rw [hl] at hpivot hbody ⊢
  rw [sort, hpivot, hbody]

theorem sortTwo_eq (hlast : last = p.length + 2) :
    sortTwo pred p.length last (p ++ x :: y :: s) = some (p ++ sort pred [x, y] ++ s) := by
  have hx : deref p.length last (p ++ x :: y :: s) p.length = some x :=
    deref_middle (Nat.le_refl _) (by omega)
  have hy : deref p.length last (p ++ x :: ([] ++ y :: s)) (p.length + 0 + 1) = some y :=
    deref_behind (Nat.le_refl _) (by simp; omega)
  have hswap : swap p.length last (p ++ x :: ([] ++ y :: s)) p.length (p.length + 0 + 1)
      = some (p ++ y :: ([] ++ x :: s)) := swap_near (Nat.le_refl _) (by simp; omega)
  rw [nil_append, Nat.add_zero] at hy hswap
  simp only [sortTwo, hx, hy, Option.bind_eq_bind, Option.bind_some]
  by_cases hpred : pred y x = true
  · rw [if_pos hpred, hswap, sort, if_pos hpred]
    simp
  · rw [if_neg hpred, sort, if_neg hpred]
    simp

/-- The sort in place ends, stays within its range and does to it what the sort of
the list does. -/
theorem sortRange_eq (pred : T → T → Bool) (p l s : List T) (fuel : Nat)
    (hfuel : l.length < fuel) :
    sortRange pred fuel (p ++ l ++ s) p.length (p.length + l.length)
      = some (p ++ sort pred l ++ s) := by
  induction fuel generalizing p l s with
  | zero => exact absurd hfuel (Nat.not_lt_zero _)
  | succ fuel ih =>
    have hlength : p.length + l.length - p.length = l.length := Nat.add_sub_cancel_left _ _
    by_cases hshort : l.length = 0 ∨ l.length = 1
    · simp only [sortRange, hlength, if_pos hshort]
      rcases hshort with hnil | hone
      · rw [length_eq_zero_iff.mp hnil, sort]
      · obtain ⟨x, rfl⟩ := length_eq_one_iff.mp hone
        rw [sort]
    by_cases htwo : l.length = 2
    · simp only [sortRange, hlength, if_neg hshort, if_pos htwo]
      obtain ⟨x, y, rfl⟩ := length_eq_two.mp htwo
      rw [append_assoc]
      exact sortTwo_eq rfl
    -- The pivot is exchanged with the last element, and everything else partitioned.
    obtain ⟨q, m, r, z, hl, hq⟩ := exists_middle (show 3 ≤ l.length by omega)
    have hcount : l.length = q.length + r.length + 2 := by
      rw [hl]
      simp only [length_append, length_cons, length_nil]
      omega
    have hstorage : p ++ l ++ s = (p ++ q) ++ m :: (r ++ z :: s) := by
      rw [hl]
      simp only [append_assoc, cons_append, nil_append]
    have hpivot : p.length + (l.length - 1) = (p ++ q).length + r.length + 1 := by
      rw [length_append]
      omega
    have hmiddle : p.length + l.length / 2 = (p ++ q).length := by
      rw [length_append, hq]
    have hswap : swap p.length (p.length + l.length) (p ++ l ++ s)
        (p.length + (l.length - 1)) (p.length + l.length / 2)
          = some (p ++ [] ++ [] ++ ((q ++ z :: r) ++ m :: s)) := by
      rw [hstorage, hpivot, hmiddle, swap_far (by simp) (by simp; omega)]
      simp only [append_assoc, cons_append, append_nil]
    let parts := partition pred m [] [] (q ++ z :: r)
    have hparts : parts.1.length + parts.2.length = l.length - 1 := by
      have hlen := partition_length pred m [] [] (q ++ z :: r)
      simp only [length_append, length_cons, length_nil] at hlen
      show (partition pred m [] [] (q ++ z :: r)).1.length +
        (partition pred m [] [] (q ++ z :: r)).2.length = _
      omega
    have hpartition : partitionRange pred p.length (p.length + l.length)
        (p.length + (l.length - 1)) l.length (p ++ [] ++ [] ++ ((q ++ z :: r) ++ m :: s))
        p.length p.length = some (p ++ parts.1 ++ parts.2 ++ m :: s, p.length + parts.1.length) :=
      partitionRange_eq (Nat.le_refl _) (by omega) [] [] _ _ _ _ rfl rfl
        (by simp only [length_append, length_cons]; omega)
        (by simp only [length_append, length_cons]; omega)
    have hmove : movePivot p.length (p.length + l.length) (p ++ parts.1 ++ parts.2 ++ m :: s)
        (p.length + (l.length - 1)) (p.length + parts.1.length)
          = some (p ++ parts.1 ++ m :: (behind parts.2 ++ s)) :=
      movePivot_eq (Nat.le_refl _) rfl (by omega) (by omega)
    have hbefore := ih p parts.1 (m :: (behind parts.2 ++ s)) (by omega)
    have hsorted : (sort pred parts.1).length = parts.1.length :=
      (sort_perm pred parts.1).length_eq
    have hbehind := ih (p ++ sort pred parts.1 ++ [m]) (behind parts.2) s (by
      rw [length_behind]
      omega)
    have hfirst : (p ++ sort pred parts.1 ++ [m]).length = p.length + parts.1.length + 1 := by
      simp only [length_append, hsorted, length_cons, length_nil]
    rw [hfirst, length_behind,
      show p.length + parts.1.length + 1 + parts.2.length = p.length + l.length by omega] at hbehind
    have hstep : p ++ sort pred parts.1 ++ m :: (behind parts.2 ++ s)
        = p ++ sort pred parts.1 ++ [m] ++ behind parts.2 ++ s := by
      simp only [append_assoc, cons_append, nil_append]
    have hsort : sort pred l = sort pred parts.1 ++ m :: sort pred (behind parts.2) := by
      rw [hl]
      rw [hl] at hq hshort
      exact sort_eq pred hq (fun hnil => by simp [hnil] at hq; omega)
    simp only [sortRange, hlength, if_neg hshort, if_neg htwo, hswap, hpartition, hmove,
      hbefore, hstep, hbehind, hsort, Option.bind_eq_bind, Option.bind_some]
    simp only [append_assoc, cons_append, nil_append]

/-- `sort` with a strict weak order, on any range of any storage.  The calls go no
deeper than the range is long, no access leaves the range, the storage on both sides
of it stays as it was, and the range holds the same elements in order. -/
theorem sortRange_sorts (h : StrictWeak pred) (p l s : List T) :
    ∃ l', (∀ fuel, l.length < fuel →
        sortRange pred fuel (p ++ l ++ s) p.length (p.length + l.length) = some (p ++ l' ++ s)) ∧
      l'.Perm l ∧ l'.Pairwise fun a b => pred b a = false :=
  ⟨sort pred l, sortRange_eq pred p l s, sort_perm pred l,
    sort_pairwise pred l (fun _ _ hab => h.asymm hab) fun _ _ _ hba hcb => h.neg_trans hcb hba⟩

theorem sortRange_sorts_sample :
    ∃ l', (∀ fuel, [3, 1, 3, 2].length < fuel →
        sortRange (fun a b : Nat => decide (a < b)) fuel ([9] ++ [3, 1, 3, 2] ++ [0]) [9].length
          ([9].length + [3, 1, 3, 2].length) = some ([9] ++ l' ++ [0])) ∧
      l'.Perm [3, 1, 3, 2] ∧ l'.Pairwise fun a b => decide (b < a) = false :=
  sortRange_sorts ⟨by simp, by simp only [decide_eq_true_eq]; omega,
    by simp only [decide_eq_false_iff_not]; omega⟩ [9] [3, 1, 3, 2] [0]

example : sortRange (fun a b : Nat => decide (a < b)) 5 [9, 3, 1, 3, 2, 0] 1 5
    = some [9, 1, 2, 3, 3, 0] := by decide

end Hostboot.Util.QSort
