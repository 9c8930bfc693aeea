import Mathlib.Data.List.Basic
import Mathlib.Logic.Function.Basic
import Mathlib.Tactic.Common

/-!
# `std::vector`

`src/include/vector` keeps its elements in storage of its own.  The slots from
`iv_start` to `iv_finish` hold elements, and those from there to
`iv_end_of_storage` are raw.  A slot is a distance from `iv_start`, and a raw slot
holds `none`.

Every access is checked.  To construct an element in a slot that holds one or lies
outside the storage has no result, and neither has reading, assigning or
destroying one in a raw slot.  Sizes and capacities are numbers without a bound:
allocation does not fail here.

The module has four parts:

* the slots and the functions of the source;
* what the loops do, slot by slot: `Moved` by the ones that shift elements and
  `Written` by the ones that put values in;
* `Contains v l`, and the functions that make room and append;
* `insert`, in the storage there is and in new storage.  The element that `insert`
  copies is an argument `const T&`, a `Ref`, and may be one of the vector's own;
* `operator=`, within a family of vectors, so that a vector can be assigned to
  itself.
-/

namespace Hostboot.Util.StlVector

open List
open Function (update update_idem update_of_ne update_self)

universe u

variable {T : Type u}

/-! ## The functions of the source -/

/-- What the slots hold. -/
abbrev Slots (T : Type*) := Nat → Option T

/-- A vector: whether `iv_start` is null, the slots, and the distances of
`iv_finish` and `iv_end_of_storage` from `iv_start`. -/
structure Vector (T : Type*) where
  isNull : Bool
  slots : Slots T
  finish : Nat
  endOfStorage : Nat

/-- The vector without elements. -/
def empty : Vector T := ⟨true, fun _ => none, 0, 0⟩

/-- `new (p) T(x)`, in storage of `cap` slots. -/
def construct (cap : Nat) (s : Slots T) (p : Nat) (x : T) : Option (Slots T) :=
  if p < cap ∧ (s p).isNone then some (update s p (some x)) else none

/-- `*p = x`. -/
def assign (s : Slots T) (p : Nat) (x : T) : Option (Slots T) :=
  if (s p).isSome then some (update s p (some x)) else none

/-- `p->~T()`. -/
def destroy (s : Slots T) (p : Nat) : Option (Slots T) :=
  if (s p).isSome then some (update s p none) else none

/-- `ctor_copy` of values that lie elsewhere, to `destination`. -/
def ctor_copy (cap : Nat) : Slots T → List T → Nat → Option (Slots T)
  | s, [], _ => some s
  | s, x :: xs, destination => do
    let s ← construct cap s destination x
    ctor_copy cap s xs (destination + 1)

/-- `ctor_copy` or `ctor_move` of the first `n` slots of `src`, from slot `first`
on, to the same slot of `s`. -/
def ctor_move (cap : Nat) (src : Slots T) (last : Nat) : Nat → Slots T → Option (Slots T)
  | 0, s => some s
  | n + 1, s => do
    let x ← src (last - (n + 1))
    let s ← construct cap s (last - (n + 1)) x
    ctor_move cap src last n s

/-- `ctor_copy_backward`, within the storage.  The second and third argument are
`last` and `destination`. -/
def ctor_copy_backward (cap : Nat) (s : Slots T) (first : Nat) : Nat → Nat → Option (Slots T)
  | 0, _ => if first = 0 then some s else none
  | last + 1, destination =>
    if first = last + 1 then some s
    else
      match destination with
      | 0 => none
      | destination + 1 => do
        let x ← s last
        let s ← construct cap s destination x
        ctor_copy_backward cap s first last destination

/-- `std::copy_backward`, within the storage. -/
def copy_backward (s : Slots T) (first : Nat) : Nat → Nat → Option (Slots T)
  | 0, _ => if first = 0 then some s else none
  | last + 1, result =>
    if first = last + 1 then some s
    else
      match result with
      | 0 => none
      | result + 1 => do
        let x ← s last
        let s ← assign s result x
        copy_backward s first last result

/-- `std::copy` of values that lie elsewhere, and `fill_n`. -/
def copy : Slots T → List T → Nat → Option (Slots T)
  | s, [], _ => some s
  | s, x :: xs, result => do
    let s ← assign s result x
    copy s xs (result + 1)

attribute [grind =] ctor_copy ctor_move ctor_copy_backward copy_backward copy

namespace Vector

/-- The loop of `clear`, which destroys from the back. -/
def clearFrom : Nat → Slots T → Option (Slots T)
  | 0, s => some s
  | finish + 1, s => do
    let s ← destroy s finish
    clearFrom finish s

attribute [grind =] clearFrom

def clear (v : Vector T) : Option (Vector T) := do
  let s ← clearFrom v.finish v.slots
  some { v with slots := s, finish := 0 }

def reallocate (v : Vector T) (new_cap : Nat) : Option (Vector T) :=
  let new_cap := max new_cap v.finish
  if v.endOfStorage ≠ new_cap then
    if v.isNull then some ⟨false, fun _ => none, 0, new_cap⟩
    else do
      let s ← ctor_move new_cap v.slots v.finish v.finish fun _ => none
      -- The old storage goes with what is in it.
      let _ ← v.clear
      some ⟨false, s, v.finish, new_cap⟩
  else some v

def reserve (v : Vector T) (new_cap : Nat) : Option (Vector T) :=
  let c := v.endOfStorage
  if c < new_cap then v.reallocate (max new_cap (c + (c + 5) / 10)) else some v

def push_back (v : Vector T) (x : T) : Option (Vector T) := do
  let v ← v.reserve (v.finish + 1)
  let s ← construct v.endOfStorage v.slots v.finish x
  some { v with slots := s, finish := v.finish + 1 }

/-- `while(n--) new_vec.push_back(x)`, and the same over a range. -/
def pushAll : Vector T → List T → Option (Vector T)
  | v, [] => some v
  | v, x :: xs => do
    let v ← v.push_back x
    pushAll v xs

/-- The loop that copies the elements into a new vector and inserts at
`position`.  The last argument counts what is left of the elements. -/
def rebuild (v : Vector T) (position : Nat) (insertion : Vector T → Option (Vector T)) :
    Nat → Vector T → Option (Vector T)
  | 0, new_vec => some new_vec
  | n + 1, new_vec => do
    let i := v.finish - (n + 1)
    let new_vec ← if i = position then insertion new_vec else some new_vec
    let x ← v.slots i
    let new_vec ← new_vec.push_back x
    rebuild v position insertion n new_vec

/-- The body of the loop that writes values where the tail was: over an element
before `finish`, and into a raw slot from there on. -/
def put (cap finish : Nat) (s : Slots T) (position : Nat) (x : T) : Option (Slots T) :=
  if position < finish then assign s position x else construct cap s position x

/-- The loop that writes the values where the tail was. -/
def overwrite (cap finish : Nat) : Slots T → List T → Nat → Option (Slots T)
  | s, [], _ => some s
  | s, x :: xs, position => do
    let s ← put cap finish s position x
    overwrite cap finish s xs (position + 1)

attribute [grind =] put overwrite

/-- `insert` of the values of a range at `position`. -/
def insertRange (v : Vector T) (position : Nat) (xs : List T) : Option (Vector T) :=
  let n := xs.length
  let new_size := v.finish + n
  if position = v.finish then do
    let v ← v.reserve new_size
    let s ← ctor_copy v.endOfStorage v.slots xs v.finish
    some { v with slots := s, finish := v.finish + n }
  else if v.endOfStorage < new_size then do
    let new_vec ← empty.reserve new_size
    let new_vec ← rebuild v position (·.pushAll xs) v.finish new_vec
    -- The old storage goes with what is in it.
    let _ ← v.clear
    some new_vec
  else do
    let m := v.finish - position
    let s ← if m < n then do
        let s ← ctor_copy_backward v.endOfStorage v.slots position v.finish (v.finish + n)
        overwrite v.endOfStorage v.finish s xs position
      else do
        let s ← ctor_copy_backward v.endOfStorage v.slots (v.finish - n) v.finish (v.finish + n)
        let s ← copy_backward s position (v.finish - n) v.finish
        copy s xs position
    some { v with slots := s, finish := v.finish + n }

end Vector

/-- An argument `const T&`: an object elsewhere, the object in a slot of the vector, or
no object any more. -/
inductive Ref (T : Type*) where
  | elsewhere (x : T)
  | slot (i : Nat)
  | dangling

/-- What is read through a reference. -/
def Ref.read (s : Slots T) : Ref T → Option T
  | .elsewhere x => some x
  | .slot i => s i
  | .dangling => none

/-- A reference after the storage of the vector has been freed. -/
def Ref.freed : Ref T → Ref T
  | .slot _ => .dangling
  | x => x

/-- The loops that write `*x` to `n` slots: `new (p) T(x)`, `*p = x`, or one of them. -/
def fill (write : Slots T → Nat → T → Option (Slots T)) (x : Ref T) :
    Nat → Slots T → Nat → Option (Slots T)
  | 0, s, _ => some s
  | n + 1, s, p => do
    let y ← x.read s
    let s ← write s p y
    fill write x n s (p + 1)

namespace Vector

/-- `while(n--) new_vec.push_back(x)`, for a reference into the old storage. -/
def pushFill (old : Slots T) (x : Ref T) : Nat → Vector T → Option (Vector T)
  | 0, v => some v
  | n + 1, v => do
    let y ← x.read old
    let v ← v.push_back y
    pushFill old x n v

/-- `insert` of `n` copies of `x` at `position`. -/
def insertFill (v : Vector T) (position n : Nat) (x : Ref T) : Option (Vector T) :=
  let new_size := v.finish + n
  if position = v.finish then do
    let w ← v.reserve new_size
    let x := if v.endOfStorage < new_size then x.freed else x
    let s ← fill (construct w.endOfStorage) x n w.slots w.finish
    some { w with slots := s, finish := w.finish + n }
  else if v.endOfStorage < new_size then do
    let new_vec ← empty.reserve new_size
    let new_vec ← rebuild v position (pushFill v.slots x n) v.finish new_vec
    -- The old storage goes with what is in it.
    let _ ← v.clear
    some new_vec
  else do
    let m := v.finish - position
    let s ← if m < n then do
        let s ← ctor_copy_backward v.endOfStorage v.slots position v.finish (v.finish + n)
        fill (put v.endOfStorage v.finish) x n s position
      else do
        let s ← ctor_copy_backward v.endOfStorage v.slots (v.finish - n) v.finish (v.finish + n)
        let s ← copy_backward s position (v.finish - n) v.finish
        fill assign x n s position
    some { v with slots := s, finish := v.finish + n }

/-- `insert` of one element at `position`. -/
def insertOne (v : Vector T) (position : Nat) (x : Ref T) : Option (Vector T) :=
  v.insertFill position 1 x

end Vector

/-! ## The loops -/

/-- The slots from `a` to `b` hold elements. -/
def Live (s : Slots T) (a b : Nat) : Prop := ∀ k, a ≤ k → k < b → (s k).isSome

/-- The slots from `a` to `b` are raw. -/
def Raw (s : Slots T) (a b : Nat) : Prop := ∀ k, a ≤ k → k < b → s k = none

/-- `s'` has what `s` has from `first` to `last` also `m` slots further on. -/
def Moved (s s' : Slots T) (first last m : Nat) : Prop :=
  ∀ k, s' k = if first + m ≤ k ∧ k < last + m then s (k - m) else s k

/-- `s'` has the values from slot `d` on. -/
def Written (s s' : Slots T) (xs : List T) (d : Nat) : Prop :=
  ∀ k, s' k = if d ≤ k ∧ k < d + xs.length then xs[k - d]? else s k

variable {cap p d finish : Nat} {s s' : Slots T} {xs : List T}

theorem construct_eq (hp : p < cap) (hraw : s p = none) (x : T) :
    construct cap s p x = some (update s p (some x)) :=
  if_pos ⟨hp, by simp [hraw]⟩

theorem assign_eq (hlive : (s p).isSome) (x : T) :
    assign s p x = some (update s p (some x)) :=
  if_pos hlive

theorem Moved.cons {first last m : Nat} {x : T} (hfirst : first ≤ last) (hx : s last = some x)
    (h : Moved (update s (last + m) (some x)) s' first last m) :
    Moved s s' first (last + 1) m := by
  intro k
  rw [h k]
  by_cases hin : first + m ≤ k ∧ k < last + m
  · rw [if_pos hin, if_pos (by omega)]
    exact update_of_ne (by omega) _ _
  · rw [if_neg hin]
    by_cases hk : k = last + m
    · rw [if_pos (by omega), hk, Nat.add_sub_cancel, hx]
      exact update_self _ _ _
    · rw [if_neg (by omega)]
      exact update_of_ne hk _ _

theorem Moved.refl (s : Slots T) (first m : Nat) : Moved s s first first m := by
  intro k
  rw [if_neg (by omega)]

/-- The elements that a shift still has to move are live after its first step. -/
theorem Live.update {a b : Nat} (h : Live s a (b + 1)) (p : Nat) (x : T) :
    Live (update s p (some x)) a b := by
  intro k hk hk'
  by_cases hp : k = p
  · rw [hp, update_self]
    rfl
  · rw [update_of_ne hp]
    exact h k hk (by omega)

theorem Live.exists {a b k : Nat} (h : Live s a b) (hk : a ≤ k) (hk' : k < b) :
    ∃ x, s k = some x :=
  Option.isSome_iff_exists.mp (h k hk hk')

theorem ctor_copy_backward_spec {first : Nat} (last m : Nat) (hfirst : first ≤ last)
    (hcap : last + m ≤ cap) (hlive : Live s first last) (hraw : Raw s (first + m) (last + m)) :
    ∃ s', ctor_copy_backward cap s first last (last + m) = some s' ∧ Moved s s' first last m := by
  induction last generalizing s with
  | zero =>
    obtain rfl : first = 0 := by omega
    exact ⟨s, by cases m <;> rfl, Moved.refl s 0 m⟩
  | succ last ih =>
    rw [show last + 1 + m = (last + m) + 1 by omega]
    by_cases hend : first = last + 1
    · subst hend
      exact ⟨s, by simp [ctor_copy_backward], Moved.refl s _ m⟩
    · obtain ⟨x, hx⟩ := hlive.exists (k := last) (by omega) (by omega)
      have hcons : construct cap s (last + m) x = some (update s (last + m) (some x)) :=
        construct_eq (by omega) (hraw _ (by omega) (by omega)) x
      obtain ⟨s', hcopy, hs'⟩ := ih (s := update s (last + m) (some x)) (by omega)
        (by omega) (hlive.update _ x) (fun k hk hk' => by
          rw [update_of_ne (by omega)]
          exact hraw k hk (by omega))
      refine ⟨s', ?_, hs'.cons (by omega) hx⟩
      simp only [ctor_copy_backward, if_neg hend, hx, hcons, hcopy, Option.bind_eq_bind,
        Option.bind_some]

theorem copy_backward_spec (first last m : Nat) (hfirst : first ≤ last) (hlive : Live s first last)
    (hdest : Live s (first + m) (last + m)) :
    ∃ s', copy_backward s first last (last + m) = some s' ∧ Moved s s' first last m := by
  induction last generalizing s with
  | zero =>
    obtain rfl : first = 0 := by omega
    exact ⟨s, by cases m <;> rfl, Moved.refl s 0 m⟩
  | succ last ih =>
    rw [show last + 1 + m = (last + m) + 1 by omega] at hdest ⊢
    by_cases hend : first = last + 1
    · subst hend
      exact ⟨s, by simp [copy_backward], Moved.refl s _ m⟩
    · obtain ⟨x, hx⟩ := hlive.exists (k := last) (by omega) (by omega)
      have hset : assign s (last + m) x = some (update s (last + m) (some x)) :=
        assign_eq (hdest _ (by omega) (by omega)) x
      obtain ⟨s', hcopy, hs'⟩ := ih (s := update s (last + m) (some x)) (by omega)
        (hlive.update _ x) (hdest.update _ x)
      refine ⟨s', ?_, hs'.cons (by omega) hx⟩
      simp only [copy_backward, if_neg hend, hx, hset, hcopy, Option.bind_eq_bind,
        Option.bind_some]

theorem Written.nil (s : Slots T) (d : Nat) : Written s s [] d := by
  intro k
  rw [if_neg (by simp only [length_nil]; omega)]

theorem Written.cons {x : T} (h : Written (update s d (some x)) s' xs (d + 1)) :
    Written s s' (x :: xs) d := by
  intro k
  rw [h k, length_cons]
  by_cases hk : k = d
  · subst hk
    rw [if_neg (by omega), if_pos (by omega), Nat.sub_self]
    exact update_self _ _ _
  · rw [update_of_ne hk]
    by_cases hin : d + 1 ≤ k ∧ k < d + 1 + xs.length
    · rw [if_pos hin, if_pos (by omega), show k - d = (k - (d + 1)) + 1 by omega]
      rfl
    · rw [if_neg hin, if_neg (by omega)]

namespace Vector

/-- The values go over elements up to slot `finish` and into raw slots behind it. -/
theorem overwrite_spec (cap finish : Nat) (s : Slots T) (xs : List T) (d : Nat)
    (hcap : d + xs.length ≤ cap) (hlive : Live s d (min finish (d + xs.length)))
    (hraw : Raw s (max d finish) (d + xs.length)) :
    ∃ s', overwrite cap finish s xs d = some s' ∧ Written s s' xs d := by
  induction xs generalizing s d with
  | nil => exact ⟨s, rfl, Written.nil s d⟩
  | cons x xs ih =>
    rw [length_cons] at hcap hlive hraw
    have hput : put cap finish s d x = some (update s d (some x)) := by
      by_cases hd : d < finish
      · exact (if_pos hd).trans (assign_eq (hlive d (Nat.le_refl d) (by omega)) x)
      · exact (if_neg hd).trans (construct_eq (by omega) (hraw d (by omega) (by omega)) x)
    obtain ⟨s', hover, hs'⟩ := ih (update s d (some x)) (d + 1) (by omega)
      (fun k hk hk' => by
        rw [update_of_ne (by omega)]
        exact hlive k (by omega) (by omega))
      (fun k hk hk' => by
        rw [update_of_ne (by omega)]
        exact hraw k (by omega) (by omega))
    refine ⟨s', ?_, hs'.cons⟩
    simp only [overwrite, hput, hover, Option.bind_eq_bind, Option.bind_some]

end Vector

theorem ctor_copy_eq (s : Slots T) (xs : List T) (hd : finish ≤ d) :
    ctor_copy cap s xs d = Vector.overwrite cap finish s xs d := by
  induction xs generalizing s d with
  | nil => rfl
  | cons x xs ih =>
    simp only [ctor_copy, Vector.overwrite, Vector.put, if_neg (show ¬ d < finish by omega)]
    exact congrArg _ (funext fun s' => ih s' (by omega))

theorem copy_eq (cap : Nat) (s : Slots T) (xs : List T) (hd : d + xs.length ≤ finish) :
    copy s xs d = Vector.overwrite cap finish s xs d := by
  induction xs generalizing s d with
  | nil => rfl
  | cons x xs ih =>
    rw [length_cons] at hd
    simp only [copy, Vector.overwrite, Vector.put, if_pos (show d < finish by omega)]
    exact congrArg _ (funext fun s' => ih s' (by omega))

theorem ctor_copy_spec (hcap : d + xs.length ≤ cap) (hraw : Raw s d (d + xs.length)) :
    ∃ s', ctor_copy cap s xs d = some s' ∧ Written s s' xs d := by
  rw [ctor_copy_eq s xs (Nat.le_refl d)]
  refine Vector.overwrite_spec cap d s xs d hcap (fun k hk hk' => ?_) (fun k hk hk' => ?_)
  · omega
  · exact hraw k (by omega) hk'

theorem copy_spec (s : Slots T) (xs : List T) (d : Nat) (hlive : Live s d (d + xs.length)) :
    ∃ s', copy s xs d = some s' ∧ Written s s' xs d := by
  rw [copy_eq (d + xs.length) s xs (Nat.le_refl _)]
  refine Vector.overwrite_spec _ _ s xs d (Nat.le_refl _) (fun k hk hk' => ?_) (fun k hk hk' => ?_)
  · exact hlive k hk (by omega)
  · omega

/-! ## Storage -/

theorem Vector.clearFrom_spec {n : Nat} (hlive : Live s 0 n) :
    ∃ s', clearFrom n s = some s' ∧ ∀ k, s' k = if k < n then none else s k := by
  induction n generalizing s with
  | zero => exact ⟨s, rfl, fun k => by rw [if_neg (Nat.not_lt_zero k)]⟩
  | succ n ih =>
    have hdestroy : destroy s n = some (update s n none) :=
      if_pos (hlive n (Nat.zero_le n) (by omega))
    obtain ⟨s', hclear, hs'⟩ := ih (s := update s n none) (fun k hk hk' => by
      rw [update_of_ne (by omega)]
      exact hlive k hk (by omega))
    refine ⟨s', by simp only [clearFrom, hdestroy, hclear, Option.bind_eq_bind,
      Option.bind_some], fun k => ?_⟩
    rw [hs' k]
    by_cases hk : k < n
    · rw [if_pos hk, if_pos (by omega)]
    · rw [if_neg hk]
      by_cases hkn : k = n
      · rw [if_pos (by omega), hkn, update_self]
      · rw [if_neg (by omega), update_of_ne hkn]

theorem ctor_move_spec (cap : Nat) {last n : Nat} (src : Slots T) (hn : n ≤ last)
    (hcap : last ≤ cap) (hlive : Live src (last - n) last) (hraw : Raw s (last - n) last) :
    ∃ s', ctor_move cap src last n s = some s' ∧
      ∀ k, s' k = if last - n ≤ k ∧ k < last then src k else s k := by
  induction n generalizing s with
  | zero => exact ⟨s, rfl, fun k => by rw [if_neg (by omega)]⟩
  | succ n ih =>
    obtain ⟨x, hx⟩ := hlive.exists (k := last - (n + 1)) (Nat.le_refl _) (by omega)
    let s1 := update s (last - (n + 1)) (some x)
    have hcons : construct cap s (last - (n + 1)) x = some s1 :=
      construct_eq (by omega) (hraw _ (Nat.le_refl _) (by omega)) x
    have hother : ∀ k, k ≠ last - (n + 1) → s1 k = s k := fun k hk => update_of_ne hk _ _
    obtain ⟨s', hmove, hs'⟩ := ih (s := s1) (by omega)
      (fun k hk hk' => hlive k (by omega) hk')
      (fun k hk hk' => by
        rw [hother k (by omega)]
        exact hraw k (by omega) hk')
    refine ⟨s', by simp only [ctor_move, hx, hcons, hmove, Option.bind_eq_bind,
      Option.bind_some], fun k => ?_⟩
    rw [hs' k]
    by_cases hk : last - n ≤ k ∧ k < last
    · rw [if_pos hk, if_pos (by omega)]
    · rw [if_neg hk]
      by_cases hkn : k = last - (n + 1)
      · rw [if_pos (by omega), hkn, hx]
        exact update_self _ _ _
      · rw [if_neg (by omega), hother k hkn]

/-- The vector has the elements of the list, in its first slots, and no other
slot holds an element. -/
structure Contains (v : Vector T) (l : List T) : Prop where
  finish_eq : v.finish = l.length
  fits : l.length ≤ v.endOfStorage
  slots_eq : ∀ k, v.slots k = l[k]?
  null : v.isNull = true → v.endOfStorage = 0

namespace Contains

variable {v : Vector T} {l : List T}

theorem empty : Contains (empty : Vector T) [] where
  finish_eq := rfl
  fits := Nat.le_refl 0
  slots_eq := fun _ => rfl
  null := fun _ => rfl

theorem live (h : Contains v l) {a b : Nat} (hb : b ≤ l.length) : Live v.slots a b := by
  intro k hk hk'
  rw [h.slots_eq k, getElem?_eq_getElem (Nat.lt_of_lt_of_le hk' hb)]
  rfl

theorem raw (h : Contains v l) {a b : Nat} (ha : l.length ≤ a) : Raw v.slots a b := by
  intro k hk hk'
  rw [h.slots_eq k]
  exact getElem?_eq_none (by omega)

theorem clear (h : Contains v l) : ∃ v', v.clear = some v' ∧ Contains v' [] ∧
    v'.endOfStorage = v.endOfStorage ∧ v'.isNull = v.isNull := by
  obtain ⟨s', hclear, hs'⟩ := Vector.clearFrom_spec (h.live (a := 0) (Nat.le_refl l.length))
  refine ⟨{ v with slots := s', finish := 0 }, ?_, ⟨rfl, Nat.zero_le _, fun k => ?_, h.null⟩,
    rfl, rfl⟩
  · simp only [Vector.clear, h.finish_eq, hclear, Option.bind_eq_bind, Option.bind_some]
  · show s' k = none
    rw [hs' k]
    by_cases hk : k < l.length
    · rw [if_pos hk]
    · rw [if_neg hk, h.slots_eq k]
      exact getElem?_eq_none (by omega)

theorem reallocate (h : Contains v l) (new_cap : Nat) (hcap : l.length ≤ new_cap) :
    ∃ v', v.reallocate new_cap = some v' ∧ Contains v' l ∧ v'.endOfStorage = new_cap := by
  have hmax : max new_cap v.finish = new_cap := by
    rw [h.finish_eq]
    omega
  by_cases hsame : v.endOfStorage = new_cap
  · exact ⟨v, by simp only [Vector.reallocate, hmax, hsame, ne_eq, not_true_eq_false,
      if_false], h, hsame⟩
  cases hnull : v.isNull with
  | true =>
    obtain rfl : l = [] := eq_nil_of_length_eq_zero (by
      have := h.null hnull
      have := h.fits
      omega)
    refine ⟨⟨false, fun _ => none, 0, new_cap⟩, ?_, ⟨rfl, Nat.zero_le _, fun _ => rfl, ?_⟩, rfl⟩
    · simp only [Vector.reallocate, hmax, ne_eq, hsame, not_false_eq_true, if_true, hnull]
    · exact fun hfalse => absurd hfalse Bool.false_ne_true
  | false =>
    obtain ⟨s', hmove, hs'⟩ := ctor_move_spec new_cap v.slots
      (s := fun _ => none) (Nat.le_refl l.length) hcap (h.live (Nat.le_refl _))
      (fun _ _ _ => rfl)
    rw [← h.finish_eq] at hmove
    obtain ⟨v0, hclear, -⟩ := h.clear
    refine ⟨⟨false, s', v.finish, new_cap⟩, ?_, ⟨h.finish_eq, hcap, fun k => ?_, ?_⟩, rfl⟩
    · simp only [Vector.reallocate, hmax, ne_eq, hsame, not_false_eq_true, if_true, hnull,
        Bool.false_eq_true, if_false, hmove, hclear, Option.bind_eq_bind, Option.bind_some]
    · show s' k = l[k]?
      rw [hs' k, h.slots_eq k]
      by_cases hk : k < l.length
      · rw [if_pos (by omega)]
      · rw [if_neg (by omega)]
        exact (getElem?_eq_none (by omega)).symm
    · exact fun hfalse => absurd hfalse Bool.false_ne_true

theorem reserve (h : Contains v l) (new_cap : Nat) :
    ∃ v', v.reserve new_cap = some v' ∧ Contains v' l ∧ new_cap ≤ v'.endOfStorage := by
  by_cases hroom : v.endOfStorage < new_cap
  · obtain ⟨v', hv', hl, hcap⟩ := h.reallocate
      (max new_cap (v.endOfStorage + (v.endOfStorage + 5) / 10))
      (by have := h.fits; omega)
    exact ⟨v', by simp only [Vector.reserve, if_pos hroom, hv'], hl, by omega⟩
  · exact ⟨v, by simp only [Vector.reserve, if_neg hroom], h, by omega⟩

theorem written (h : Contains v l) {xs : List T} {s' : Slots T}
    (hcap : l.length + xs.length ≤ v.endOfStorage) (hs' : Written v.slots s' xs l.length) :
    Contains { v with slots := s', finish := v.finish + xs.length } (l ++ xs) where
  finish_eq := by
    rw [length_append, ← h.finish_eq]
  fits := by
    rw [length_append]
    exact hcap
  slots_eq := by
    intro k
    show s' k = _
    rw [hs' k, h.slots_eq k, getElem?_append]
    by_cases hk : k < l.length
    · rw [if_neg (by omega), if_pos hk]
    · rw [if_neg hk]
      by_cases hin : k < l.length + xs.length
      · rw [if_pos (by omega)]
      · rw [if_neg (by omega), getElem?_eq_none (by omega),
          getElem?_eq_none (by omega)]
  null := h.null

theorem push_back (h : Contains v l) (x : T) :
    ∃ v', v.push_back x = some v' ∧ Contains v' (l ++ [x]) := by
  obtain ⟨v1, hv1, h1, hcap⟩ := h.reserve (v.finish + 1)
  rw [h.finish_eq] at hcap
  have hcons : construct v1.endOfStorage v1.slots v1.finish x
      = some (update v1.slots v1.finish (some x)) :=
    construct_eq (by rw [h1.finish_eq]; omega)
      (h1.raw (b := v1.finish + 1) (Nat.le_of_eq h1.finish_eq.symm) _ (Nat.le_refl _) (by omega)) x
  refine ⟨{ v1 with
      slots := update v1.slots v1.finish (some x), finish := v1.finish + 1 },
    by simp only [Vector.push_back, hv1, hcons, Option.bind_eq_bind, Option.bind_some],
    h1.written (show l.length + [x].length ≤ _ from hcap) ?_⟩
  rw [h1.finish_eq]
  exact (Written.nil _ _).cons

theorem pushAll (h : Contains v l) (xs : List T) :
    ∃ v', v.pushAll xs = some v' ∧ Contains v' (l ++ xs) := by
  induction xs generalizing v l with
  | nil => exact ⟨v, rfl, by rwa [append_nil]⟩
  | cons x xs ih =>
    obtain ⟨v1, hv1, h1⟩ := h.push_back x
    obtain ⟨v', hv', h'⟩ := ih h1
    refine ⟨v', by simp only [Vector.pushAll, hv1, hv', Option.bind_eq_bind, Option.bind_some], ?_⟩
    rwa [append_assoc] at h'

end Contains

/-! ## `insert` -/

/-- What `rebuild` still appends when it stands at element `i`. -/
def remaining (l : List T) (position : Nat) (xs : List T) (i : Nat) : List T :=
  if i ≤ position then (l.take position).drop i ++ xs ++ l.drop position else l.drop i

theorem remaining_end (l : List T) {position : Nat} (xs : List T) (hpos : position < l.length) :
    remaining l position xs l.length = [] := by
  rw [remaining, if_neg (by omega), drop_length]

theorem remaining_step {l : List T} {position i : Nat} {x : T} (xs : List T)
    (hx : l[i]? = some x) :
    remaining l position xs i
      = (if i = position then xs else []) ++ x :: remaining l position xs (i + 1) := by
  obtain ⟨hi, rfl⟩ := List.getElem?_eq_some_iff.mp hx
  rcases Nat.lt_trichotomy i position with hlt | heq | hgt
  · rw [remaining, remaining, if_pos (show i ≤ position by omega),
      if_neg (show ¬ i = position by omega), if_pos (show i + 1 ≤ position by omega),
      drop_eq_getElem_cons (show i < (l.take position).length by simp; omega),
      getElem_take]
    rfl
  · rw [remaining, remaining, if_pos (show i ≤ position by omega), if_pos heq,
      if_neg (show ¬ i + 1 ≤ position by omega), ← heq,
      drop_eq_nil_of_le (by rw [length_take]; omega),
      nil_append, drop_eq_getElem_cons hi]
  · rw [remaining, remaining, if_neg (show ¬ i ≤ position by omega),
      if_neg (show ¬ i = position by omega), if_neg (show ¬ i + 1 ≤ position by omega),
      drop_eq_getElem_cons hi]
    rfl

theorem rebuild_spec {v w : Vector T} {l head : List T} {n : Nat} (h : Contains v l)
    (position : Nat) (xs : List T) (hpos : position < l.length) (hn : n ≤ l.length)
    (hw : Contains w head) :
    ∃ w', v.rebuild position (·.pushAll xs) n w = some w' ∧
      Contains w' (head ++ remaining l position xs (l.length - n)) := by
  induction n generalizing w head with
  | zero =>
    refine ⟨w, rfl, ?_⟩
    rw [Nat.sub_zero, remaining_end l xs hpos, append_nil]
    exact hw
  | succ n ih =>
    let i := l.length - (n + 1)
    have hi : i < l.length := by omega
    have hx : l[i]? = some l[i] := getElem?_eq_getElem hi
    have hslot : v.slots i = some l[i] := by rw [h.slots_eq, hx]
    -- The values go in before the element at `position`.
    have hput : ∃ w1, (if i = position then w.pushAll xs else some w) = some w1 ∧
        Contains w1 (head ++ if i = position then xs else []) := by
      by_cases hat : i = position
      · rw [if_pos hat, if_pos hat]
        exact hw.pushAll xs
      · rw [if_neg hat, if_neg hat]
        exact ⟨w, rfl, by rwa [append_nil]⟩
    obtain ⟨w1, hw1, h1⟩ := hput
    obtain ⟨w2, hw2, h2⟩ := h1.push_back l[i]
    obtain ⟨w', hw', h'⟩ := ih (by omega) h2
    refine ⟨w', ?_, ?_⟩
    · have hi' : v.finish - (n + 1) = i := by rw [h.finish_eq]
      rw [Vector.rebuild, hi']
      split_ifs at hw1 ⊢ with hat
      · simp only [hw1, hslot, hw2, hw', Option.bind_eq_bind, Option.bind_some]
      · obtain rfl := Option.some.inj hw1
        simp only [hslot, hw2, hw', Option.bind_eq_bind, Option.bind_some]
    · rw [remaining_step xs hx]
      rw [show l.length - n = i + 1 by omega] at h'
      simpa only [append_assoc, singleton_append] using h'

theorem getElem?_inserted {l : List T} {position : Nat} (hpos : position ≤ l.length) (k : Nat) :
    (l.take position ++ xs ++ l.drop position)[k]? =
      if position ≤ k ∧ k < position + xs.length then xs[k - position]?
      else if position + xs.length ≤ k then l[k - xs.length]? else l[k]? := by
  have htake : (l.take position).length = position := by
    rw [length_take]
    omega
  rw [append_assoc, getElem?_append, htake]
  by_cases hk : k < position
  · rw [if_pos hk, if_neg (by omega), if_neg (by omega), getElem?_take, if_pos hk]
  · rw [if_neg hk, getElem?_append]
    by_cases hin : k - position < xs.length
    · rw [if_pos hin, if_pos (by omega)]
    · rw [if_neg hin, if_neg (by omega), if_pos (by omega), getElem?_drop]
      congr 1
      omega

/-- The tail has been moved and the values have been put where it was. -/
theorem inserted_of_moved {v : Vector T} {l : List T} {position : Nat} (h : Contains v l)
    (hpos : position ≤ l.length) (hmoved : Moved v.slots s position l.length xs.length)
    (hwritten : Written s s' xs position) (k : Nat) :
    s' k = (l.take position ++ xs ++ l.drop position)[k]? := by
  rw [hwritten k, getElem?_inserted hpos k]
  by_cases hin : position ≤ k ∧ k < position + xs.length
  · rw [if_pos hin, if_pos hin]
  rw [if_neg hin, if_neg hin, hmoved k]
  by_cases hk : position + xs.length ≤ k
  · rw [if_pos hk]
    by_cases hend : k < l.length + xs.length
    · rw [if_pos (by omega), h.slots_eq]
    · rw [if_neg (by omega), h.slots_eq, getElem?_eq_none (by omega),
        getElem?_eq_none (by omega)]
  · rw [if_neg hk, if_neg (by omega), h.slots_eq]

/-- A long tail is moved in two parts: its last elements into raw storage, and the
others within the elements. -/
theorem move_long_tail {v : Vector T} {l : List T} {position n : Nat} (h : Contains v l)
    (hcap : l.length + n ≤ v.endOfStorage) (hlong : n ≤ l.length - position)
    (hpos : position ≤ l.length) :
    ∃ s1 s2,
      ctor_copy_backward v.endOfStorage v.slots (l.length - n) l.length (l.length + n)
        = some s1 ∧
      copy_backward s1 position (l.length - n) l.length = some s2 ∧
      Moved v.slots s2 position l.length n := by
  obtain ⟨s1, hmove, hs1⟩ := ctor_copy_backward_spec l.length n (Nat.sub_le l.length n) hcap
    (h.live (Nat.le_refl _)) (h.raw (by omega))
  have hlive : ∀ a b, b ≤ l.length → Live s1 a b := by
    intro a b hb k hk hk'
    rw [hs1 k, if_neg (by omega)]
    exact h.live hb k hk hk'
  obtain ⟨s2, hshift, hs2⟩ := copy_backward_spec position (l.length - n) n (s := s1) (by omega)
    (hlive _ _ (by omega)) (hlive _ _ (by omega))
  rw [show l.length - n + n = l.length by omega] at hshift
  refine ⟨s1, s2, hmove, hshift, fun k => ?_⟩
  rw [hs2 k]
  by_cases hin : position + n ≤ k ∧ k < l.length
  · rw [if_pos (by omega), if_pos (by omega), hs1 (k - n), if_neg (by omega)]
  · rw [if_neg (by omega), hs1 k]
    by_cases htail : l.length ≤ k ∧ k < l.length + n
    · rw [if_pos (by omega), if_pos (by omega)]
    · rw [if_neg (by omega), if_neg (by omega)]

/-- The tail is moved into raw storage whole, and the values go where it was and
behind that. -/
theorem insert_short_tail {v : Vector T} {l : List T} {position : Nat} (h : Contains v l)
    (hcap : l.length + xs.length ≤ v.endOfStorage) (hpos : position ≤ l.length)
    (hshort : l.length - position < xs.length) :
    ∃ s1 s2,
      ctor_copy_backward v.endOfStorage v.slots position l.length (l.length + xs.length)
        = some s1 ∧
      Vector.overwrite v.endOfStorage l.length s1 xs position = some s2 ∧
      ∀ k, s2 k = (l.take position ++ xs ++ l.drop position)[k]? := by
  obtain ⟨s1, hmove, hs1⟩ := ctor_copy_backward_spec _ _ hpos hcap (h.live (Nat.le_refl _))
    (h.raw (by omega))
  have hkept : ∀ k, k < position + xs.length → s1 k = v.slots k := by
    intro k hk
    rw [hs1 k, if_neg (by omega)]
  obtain ⟨s2, hwrite, hs2⟩ := Vector.overwrite_spec v.endOfStorage l.length s1 xs
    position (by omega)
    (fun k hk hk' => by
      rw [hkept k (by omega)]
      exact h.live (Nat.le_refl _) k hk (by omega))
    (fun k hk hk' => by
      rw [hkept k hk']
      exact h.raw (b := k + 1) (Nat.le_refl _) k (by omega) (by omega))
  exact ⟨s1, s2, hmove, hwrite, inserted_of_moved h hpos hs1 hs2⟩

/-- The last elements of the tail are moved into raw storage and the others within
the elements, and the values go over elements. -/
theorem insert_long_tail {v : Vector T} {l : List T} {position : Nat} (h : Contains v l)
    (hcap : l.length + xs.length ≤ v.endOfStorage) (hpos : position ≤ l.length)
    (hlong : xs.length ≤ l.length - position) :
    ∃ s1 s2 s3,
      ctor_copy_backward v.endOfStorage v.slots (l.length - xs.length) l.length
        (l.length + xs.length) = some s1 ∧
      copy_backward s1 position (l.length - xs.length) l.length = some s2 ∧
      copy s2 xs position = some s3 ∧
      ∀ k, s3 k = (l.take position ++ xs ++ l.drop position)[k]? := by
  obtain ⟨s1, s2, hmove, hshift, hs2⟩ := move_long_tail h hcap hlong hpos
  obtain ⟨s3, hwrite, hs3⟩ := copy_spec s2 xs position (fun k hk hk' => by
    rw [hs2 k, if_neg (by omega)]
    exact h.live (Nat.le_refl _) k (Nat.zero_le k) (by omega))
  exact ⟨s1, s2, s3, hmove, hshift, hwrite, inserted_of_moved h hpos hs2 hs3⟩

/-- `insert` of a range puts its values before the element at `position`, whatever
the storage is. -/
theorem insertRange_contains {v : Vector T} {l : List T} (h : Contains v l) {position : Nat}
    (hpos : position ≤ l.length) (xs : List T) :
    ∃ v', v.insertRange position xs = some v' ∧
      Contains v' (l.take position ++ xs ++ l.drop position) := by
  by_cases hend : position = l.length
  · obtain ⟨v1, hv1, h1, hcap⟩ := h.reserve (v.finish + xs.length)
    rw [h.finish_eq] at hcap
    obtain ⟨s', hcopy, hs'⟩ := ctor_copy_spec (s := v1.slots) hcap (h1.raw (Nat.le_refl _))
    rw [← h1.finish_eq] at hcopy
    refine ⟨{ v1 with slots := s', finish := v1.finish + xs.length }, ?_, ?_⟩
    · simp only [Vector.insertRange, hend, h.finish_eq, if_true]
      simp only [h.finish_eq] at hv1
      simp only [hv1, hcopy, Option.bind_eq_bind, Option.bind_some]
    · rw [hend, take_length, drop_length, append_nil]
      exact h1.written hcap hs'
  have hend' : ¬ position = v.finish := by rwa [h.finish_eq]
  by_cases hfull : v.endOfStorage < v.finish + xs.length
  · obtain ⟨w1, hw1, h1, -⟩ := Contains.empty.reserve (T := T) (v.finish + xs.length)
    obtain ⟨w', hw', h'⟩ := rebuild_spec h position xs (by omega) (Nat.le_refl _) h1
    rw [← h.finish_eq] at hw'
    obtain ⟨v0, hclear, -⟩ := h.clear
    refine ⟨w', ?_, ?_⟩
    · simp only [Vector.insertRange, if_neg hend', if_pos hfull, hw1, hw', hclear,
        Option.bind_eq_bind, Option.bind_some]
    · rw [Nat.sub_self, nil_append, remaining, if_pos (Nat.zero_le _), drop_zero] at h'
      exact h'
  have hcap : l.length + xs.length ≤ v.endOfStorage := by
    rw [← h.finish_eq]
    omega
  have hlength : (l.take position ++ xs ++ l.drop position).length = l.length + xs.length := by
    simp only [length_append, length_take, length_drop]
    omega
  have hdone : ∀ s' : Slots T, (∀ k, s' k = (l.take position ++ xs ++ l.drop position)[k]?) →
      Contains { v with slots := s', finish := v.finish + xs.length }
        (l.take position ++ xs ++ l.drop position) := fun s' hs' =>
    ⟨by rw [hlength, ← h.finish_eq], by rw [hlength]; exact hcap, hs', h.null⟩
  by_cases hshort : v.finish - position < xs.length
  · obtain ⟨s1, s2, hmove, hwrite, hs2⟩ := insert_short_tail h hcap hpos
      (by rw [← h.finish_eq]; exact hshort)
    rw [← h.finish_eq] at hmove hwrite
    refine ⟨_, ?_, hdone s2 hs2⟩
    simp only [Vector.insertRange, if_neg hend', if_neg hfull, if_pos hshort, hmove, hwrite,
      Option.bind_eq_bind, Option.bind_some]
  · obtain ⟨s1, s2, s3, hmove, hshift, hwrite, hs3⟩ := insert_long_tail h hcap hpos
      (by rw [← h.finish_eq]; omega)
    rw [← h.finish_eq] at hmove hshift
    refine ⟨_, ?_, hdone s3 hs3⟩
    simp only [Vector.insertRange, if_neg hend', if_neg hfull, if_neg hshort, hmove, hshift,
      hwrite, Option.bind_eq_bind, Option.bind_some]

/-! ## `insert` of copies -/

theorem Ref.read_update {x : Ref T} {y : T} (h : x.read s = some y) (p : Nat) :
    x.read (update s p (some y)) = some y := by
  cases x with
  | elsewhere z => exact h
  | dangling => exact h
  | slot i =>
    by_cases hi : i = p
    · subst hi
      exact update_self _ _ _
    · exact (update_of_ne hi _ _).trans h

/-- A loop that reads through a reference each time writes one value to all slots. -/
theorem fill_eq {write : Slots T → Nat → T → Option (Slots T)}
    (loop : Slots T → List T → Nat → Option (Slots T)) (hnil : ∀ s p, loop s [] p = some s)
    (hcons : ∀ s y ys p, loop s (y :: ys) p = (write s p y).bind fun s => loop s ys (p + 1))
    (hwrite : ∀ s p y s', write s p y = some s' → s' = update s p (some y)) {x : Ref T} {y : T}
    (n : Nat) (hread : x.read s = some y) (p : Nat) :
    fill write x n s p = loop s (List.replicate n y) p := by
  induction n generalizing s p with
  | zero => exact (hnil s p).symm
  | succ n ih =>
    rw [replicate_succ, hcons, fill]
    simp only [hread, Option.bind_eq_bind, Option.bind_some]
    cases hput : write s p y with
    | none => rfl
    | some s' =>
      rw [Option.bind_some, Option.bind_some]
      exact ih (by rw [hwrite s p y s' hput]; exact Ref.read_update hread p) (p + 1)

theorem construct_cases {x : T} (h : construct cap s p x = some s') : s' = update s p (some x) := by
  unfold construct at h
  split_ifs at h
  exact (Option.some.inj h).symm

theorem assign_cases {x : T} (h : assign s p x = some s') :
    s' = update s p (some x) := by
  unfold assign at h
  split_ifs at h
  exact (Option.some.inj h).symm

theorem put_cases {x : T} (h : Vector.put cap finish s p x = some s') :
    s' = update s p (some x) := by
  unfold Vector.put at h
  split_ifs at h
  · exact assign_cases h
  · exact construct_cases h

theorem pushFill_eq {old : Slots T} {x : Ref T} {y : T} (hread : x.read old = some y) (n : Nat) :
    Vector.pushFill old x n = fun v : Vector T => v.pushAll (List.replicate n y) := by
  induction n with
  | zero => rfl
  | succ n ih =>
    funext v
    simp only [Vector.pushFill, hread, replicate_succ, Vector.pushAll, Option.bind_eq_bind,
      Option.bind_some, ih]

/-- What the loops of `insert` read through the reference: the storage may have been
freed, or another element may have been moved to where it refers. -/
def Ref.late (v : Vector T) (position n : Nat) : Ref T → Option T
  | .slot i =>
    if position = v.finish ∧ v.endOfStorage < v.finish + n then none
    else if v.finish + n ≤ v.endOfStorage ∧ position + n ≤ i then v.slots (i - n)
    else v.slots i
  | x => x.read v.slots

section Fill

variable {v : Vector T} {l : List T} {position n : Nat} {x : Ref T} {y : T}

theorem Ref.read_moved {s : Slots T} (h : Contains v l) (hcap : l.length + n ≤ v.endOfStorage)
    (hmoved : Moved v.slots s position l.length n) (hlive : (x.read v.slots).isSome)
    (hlate : x.late v position n = some y) : x.read s = some y := by
  cases x with
  | elsewhere z => exact hlate
  | dangling => exact hlate
  | slot i =>
    have hi : i < l.length := by
      by_contra hout
      rw [Ref.read, h.slots_eq, getElem?_eq_none (by omega)] at hlive
      cases hlive
    rw [Ref.late, h.finish_eq, if_neg (by omega)] at hlate
    rw [Ref.read, hmoved i, ← hlate]
    exact if_congr (by omega) rfl rfl

/-- `insert` of `n` copies is `insert` of a list of `n` values, those that its loops
read. -/
theorem insertFill_eq (h : Contains v l) (hpos : position ≤ l.length)
    (hlive : (x.read v.slots).isSome) (hlate : x.late v position n = some y) :
    v.insertFill position n x = v.insertRange position (List.replicate n y) := by
  have hfinish := h.finish_eq
  unfold Vector.insertFill Vector.insertRange
  rw [length_replicate]
  dsimp only
  by_cases hend : position = v.finish
  · rw [if_pos hend, if_pos hend]
    obtain ⟨w, hw, -, -⟩ := h.reserve (v.finish + n)
    have hread : (if v.endOfStorage < v.finish + n then x.freed else x).read w.slots = some y := by
      by_cases hgrow : v.endOfStorage < v.finish + n
      · rw [if_pos hgrow]
        cases x with
        | elsewhere z => exact hlate
        | dangling => exact hlate
        | slot i =>
          rw [Ref.late, if_pos ⟨hend, hgrow⟩] at hlate
          cases hlate
      · -- nothing is moved
        rw [Vector.reserve, if_neg hgrow, Option.some.injEq] at hw
        subst hw
        rw [if_neg hgrow]
        refine Ref.read_moved h (by omega) (fun k => ?_) hlive hlate
        rw [if_neg (by omega)]
    simp only [hw, Option.bind_eq_bind, Option.bind_some]
    rw [fill_eq (ctor_copy w.endOfStorage) (fun _ _ => rfl) (fun _ _ _ _ => rfl)
      (fun _ _ _ _ => construct_cases) n hread]
  · rw [if_neg hend, if_neg hend]
    by_cases hfull : v.endOfStorage < v.finish + n
    · rw [if_pos hfull, if_pos hfull]
      have hread : x.read v.slots = some y := by
        cases x with
        | elsewhere z => exact hlate
        | dangling => exact hlate
        | slot i => rwa [Ref.late, if_neg (by omega), if_neg (by omega)] at hlate
      rw [pushFill_eq hread n]
    · rw [if_neg hfull, if_neg hfull]
      by_cases hshort : v.finish - position < n
      · have hcap : l.length + n ≤ v.endOfStorage := by omega
        obtain ⟨s1, hmove, hs1⟩ := ctor_copy_backward_spec l.length n hpos hcap
          (h.live (Nat.le_refl _)) (h.raw (by omega))
        rw [if_pos hshort, if_pos hshort, hfinish, hmove]
        simp only [Option.bind_eq_bind, Option.bind_some]
        rw [fill_eq (Vector.overwrite v.endOfStorage l.length) (fun _ _ => rfl)
          (fun _ _ _ _ => rfl) (fun _ _ _ _ => put_cases) n
          (Ref.read_moved h (by omega) hs1 hlive hlate)]
      · obtain ⟨s1, s2, hmove, hshift, hs2⟩ := move_long_tail (n := n) h (by omega) (by omega) hpos
        rw [if_neg hshort, if_neg hshort, hfinish, hmove]
        simp only [Option.bind_eq_bind, Option.bind_some, hshift]
        rw [fill_eq copy (fun _ _ => rfl) (fun _ _ _ _ => rfl)
          (fun _ _ _ _ => assign_cases) n (Ref.read_moved h (by omega) hs2 hlive hlate)]

/-- The loops do not read what `x` refers to: `x` is an element, and its storage has
been freed, or another element with another value has been moved to its slot. -/
def Ref.Overtaken (v : Vector T) (position n : Nat) : Ref T → Prop
  | .slot i =>
    if position = v.finish then v.endOfStorage < v.finish + n
    else v.finish + n ≤ v.endOfStorage ∧ position + n ≤ i ∧ v.slots (i - n) ≠ v.slots i
  | _ => False

theorem Ref.late_eq (h : Contains v l) (hread : x.read v.slots = some y)
    (hno : ¬ x.Overtaken v position n) : x.late v position n = some y := by
  cases x with
  | elsewhere z => exact hread
  | dangling => exact hread
  | slot i =>
    have hi : i < v.finish := by
      by_contra hout
      rw [Ref.read, h.slots_eq, getElem?_eq_none (by rw [← h.finish_eq]; omega)] at hread
      cases hread
    rw [Ref.read] at hread
    rw [Ref.Overtaken] at hno
    rw [Ref.late]
    by_cases hend : position = v.finish
    · rw [if_pos hend] at hno
      rw [if_neg (fun hfull => hno hfull.2), if_neg (by omega), hread]
    · rw [if_neg hend] at hno
      rw [if_neg (fun hfull => hend hfull.1)]
      by_cases hmoved : v.finish + n ≤ v.endOfStorage ∧ position + n ≤ i
      · rw [if_pos hmoved, ← hread]
        by_contra hne
        exact hno ⟨hmoved.1, hmoved.2, hne⟩
      · rw [if_neg hmoved, hread]

/-- The vector has `n` copies of `y` before the element at `position`. -/
def Vector.Filled (v : Vector T) (l : List T) (position n : Nat) (x : Ref T) (y : T) : Prop :=
  ∃ v', v.insertFill position n x = some v' ∧
    Contains v' (l.take position ++ List.replicate n y ++ l.drop position) ∧
    v'.finish = v.finish + n

theorem Ref.Overtaken.not_filled (hover : x.Overtaken v position n) (h : Contains v l)
    (hpos : position ≤ l.length) (hread : x.read v.slots = some y) :
    ¬ v.Filled l position n x y := by
  rintro ⟨v', hcall, hv', -⟩
  cases x with
  | elsewhere z => exact hover
  | dangling => exact hover
  | slot i =>
    rw [Ref.Overtaken] at hover
    by_cases hend : position = v.finish
    · -- the first copy reads a freed element
      rw [if_pos hend] at hover
      obtain ⟨w, hw, -, -⟩ := h.reserve (v.finish + n)
      have hfits := h.fits
      have hn : n = n - 1 + 1 := by
        rw [h.finish_eq] at hover
        omega
      unfold Vector.insertFill at hcall
      rw [hn] at hcall hw hover
      simp only [if_pos hend, hw, if_pos hover, fill, Ref.freed, Ref.read, Option.bind_eq_bind,
        Option.bind_some, Option.bind_none] at hcall
      cases hcall
    · rw [if_neg hend] at hover
      obtain ⟨hcap, hi, hne⟩ := hover
      rw [Ref.read, h.slots_eq] at hread
      obtain ⟨hlt, hy⟩ := List.getElem?_eq_some_iff.mp hread
      have hz : v.slots (i - n) = some l[i - n] := by
        rw [h.slots_eq, getElem?_eq_getElem]
      have hlate : (Ref.slot i).late v position n = some l[i - n] := by
        rw [Ref.late, if_neg (fun hfull => hend hfull.1), if_pos ⟨hcap, hi⟩, hz]
      rw [insertFill_eq h hpos (by rw [Ref.read, h.slots_eq, hread]; rfl) hlate] at hcall
      obtain ⟨v2, hcall2, hv2⟩ := insertRange_contains h hpos (List.replicate n l[i - n])
      obtain rfl := Option.some.inj (hcall.symm.trans hcall2)
      have hn : 0 < n := by
        by_contra hzero
        rw [show n = 0 by omega, Nat.sub_zero] at hne
        exact hne rfl
      have hslot := (hv'.slots_eq position).symm.trans (hv2.slots_eq position)
      have hin : position ≤ position ∧ position < position + n := by omega
      rw [getElem?_inserted hpos, getElem?_inserted hpos, length_replicate,
        length_replicate, if_pos hin, if_pos hin, Nat.sub_self, getElem?_replicate,
        getElem?_replicate, if_pos hn, if_pos hn] at hslot
      rw [hz, h.slots_eq, hread] at hne
      exact hne hslot.symm

/-- `insert` of `n` copies is right exactly if its loops read what `x` refers to. -/
theorem filled_iff (h : Contains v l) (hpos : position ≤ l.length)
    (hread : x.read v.slots = some y) :
    v.Filled l position n x y ↔ ¬ x.Overtaken v position n := by
  refine ⟨fun hfilled hover => hover.not_filled h hpos hread hfilled, fun hno => ?_⟩
  obtain ⟨v', hv', h'⟩ := insertRange_contains h hpos (List.replicate n y)
  rw [← insertFill_eq h hpos (by rw [hread]; rfl) (Ref.late_eq h hread hno)] at hv'
  refine ⟨v', hv', h', ?_⟩
  rw [h'.finish_eq, h.finish_eq]
  simp only [length_append, length_take, length_drop, length_replicate]
  omega

/-- Both functions `insert`.  A vector into which a range is inserted has its values
between the first `position` elements and the others, and `size()` has grown by their
number.  So it has with the copies of `x`, unless `x` is an element and is overtaken.
That there is a result says that no slot was constructed twice, and `Contains` that
none of the elements was left unconstructed. -/
theorem insert_contains_iff (h : Contains v l) (hpos : position ≤ l.length) :
    (∀ xs : List T, ∃ v', v.insertRange position xs = some v' ∧
      Contains v' (l.take position ++ xs ++ l.drop position) ∧
      v'.finish = v.finish + xs.length) ∧
    (∀ (n : Nat) (x : Ref T) (y : T), x.read v.slots = some y →
      (v.Filled l position n x y ↔ ¬ x.Overtaken v position n)) := by
  refine ⟨fun xs => ?_, fun n x y hread => filled_iff h hpos hread⟩
  obtain ⟨v', hv', h'⟩ := insertRange_contains h hpos xs
  refine ⟨v', hv', h', ?_⟩
  rw [h'.finish_eq, h.finish_eq]
  simp only [length_append, length_take, length_drop]
  omega

end Fill

/-- A vector of three elements with room for two more. -/
def threeOfFive : Vector Nat := ⟨false, fun k => [1, 2, 3][k]?, 3, 5⟩

theorem threeOfFive_contains : Contains threeOfFive [1, 2, 3] :=
  ⟨rfl, by decide, fun _ => rfl, fun hnull => absurd hnull Bool.false_ne_true⟩

/-- The last element is inserted twice at the second place, where it is not
overtaken. -/
theorem insert_contains_iff_sample : threeOfFive.Filled [1, 2, 3] 1 2 (.slot 2) 3 :=
  ((insert_contains_iff threeOfFive_contains (by decide : 1 ≤ 3)).2 2 (.slot 2) 3 rfl).mpr
    fun hover => absurd hover.2.1 (by decide)

/-- The second element is inserted at the front: the first one has been moved to its
slot by then, and is inserted. -/
theorem overtaken_element : ¬ ∀ (v : Vector Nat) (l : List Nat) (position n : Nat) (x : Ref Nat)
    (y : Nat), Contains v l → position ≤ l.length → x.read v.slots = some y →
      v.Filled l position n x y := by
  intro h
  obtain ⟨v', hcall, h', -⟩ := h threeOfFive [1, 2, 3] 0 1 (.slot 1) 2 threeOfFive_contains
    (by decide) rfl
  have hfirst : (threeOfFive.insertFill 0 1 (.slot 1)).bind (·.slots 0) = some 1 := by decide
  rw [hcall] at hfirst
  have hslot := h'.slots_eq 0
  rw [show v'.slots 0 = some 1 from hfirst] at hslot
  cases hslot

/-! ## `operator=` -/

variable {ι : Type u} [DecidableEq ι]

/-- What the slots from `iv_start` to `iv_finish` hold. -/
def Vector.elements (v : Vector T) : Option (List T) := (List.range v.finish).mapM v.slots

/-- `operator=`, of the vector `j` to the vector `i`.  Each access to the vector `j`
finds what it is by then. -/
def operatorAssign (vs : ι → Vector T) (i j : ι) : Option (ι → Vector T) := do
  let v ← (vs i).clear
  let vs := update vs i v
  let v ← (vs i).reserve (vs j).finish
  let vs := update vs i v
  let xs ← (vs j).elements
  let s ← ctor_copy (vs i).endOfStorage (vs i).slots xs 0
  some (update vs i { vs i with slots := s, finish := xs.length })

/-- The assignment leaves the vector `i` with the elements that the vector `j` had,
and every other vector as it was. -/
def VectorAssignRight (vs : ι → Vector T) (ls : ι → List T) (i j : ι) : Prop :=
  ∃ vs', operatorAssign vs i j = some vs' ∧
    ∀ k, Contains (vs' k) (update ls i (ls j) k)

theorem elements_eq {v : Vector T} {l : List T} (h : Contains v l) : v.elements = some l := by
  have hslots : v.slots = fun k => l[k]? := funext h.slots_eq
  rw [Vector.elements, h.finish_eq, hslots]
  clear h hslots
  induction l with
  | nil => rfl
  | cons x l ih =>
    rw [length_cons, range_succ_eq_map, mapM_cons, mapM_map]
    show ((some x).bind fun y => ((List.range l.length).mapM fun k => l[k]?).bind
      fun ys => some (y :: ys)) = _
    rw [ih]
    rfl

/-- After `clear`, `reserve` and `ctor_copy` the vector `i` has what the vector `j`
has once the vector `i` has been cleared. -/
theorem operatorAssign_contains {vs : ι → Vector T} {ls : ι → List T}
    (h : ∀ k, Contains (vs k) (ls k)) (i j : ι) :
    ∃ vs', operatorAssign vs i j = some vs' ∧
      ∀ k, Contains (vs' k) (update ls i (update ls i [] j) k) := by
  have hupdate : ∀ {ws : ι → Vector T} {ms : ι → List T} {v : Vector T} {l : List T},
      (∀ k, Contains (ws k) (ms k)) → Contains v l →
        ∀ k, Contains (update ws i v k) (update ms i l k) := by
    intro ws ms v l hall hv k
    by_cases hk : k = i
    · subst hk
      rwa [update_self, update_self]
    · rw [update_of_ne hk, update_of_ne hk]
      exact hall k
  let xs := update ls i [] j
  obtain ⟨v1, hclear, h1, -⟩ := (h i).clear
  have hcleared := hupdate h h1
  have h1i : Contains (update vs i v1 i) [] := by rwa [update_self]
  obtain ⟨v2, hreserve, h2, hcap⟩ := h1i.reserve (update vs i v1 j).finish
  let vs2 := update (update vs i v1) i v2
  have hroom : ∀ k, Contains (vs2 k) (update ls i [] k) := by
    intro k
    have hk := hupdate hcleared h2 k
    rwa [update_idem _ _ ls] at hk
  have hxs : (vs2 j).elements = some xs := elements_eq (hroom j)
  have h2i : Contains (vs2 i) [] := by
    show Contains (update (update vs i v1) i v2 i) []
    rwa [update_self]
  have hfits : ([] : List T).length + xs.length ≤ (vs2 i).endOfStorage := by
    rw [(hcleared j).finish_eq] at hcap
    show 0 + xs.length ≤ (update (update vs i v1) i v2 i).endOfStorage
    rw [update_self, Nat.zero_add]
    exact hcap
  obtain ⟨s, hcopy, hs⟩ := ctor_copy_spec hfits (h2i.raw (Nat.le_refl _))
  have hdone := h2i.written hfits hs
  rw [h2i.finish_eq, length_nil, Nat.zero_add, nil_append] at hdone
  refine ⟨update vs2 i { vs2 i with slots := s, finish := xs.length }, ?_, fun k => ?_⟩
  · have hcopy' : ctor_copy (vs2 i).endOfStorage (vs2 i).slots xs 0 = some s := hcopy
    simp only [operatorAssign, hclear, hreserve, Option.bind_eq_bind, Option.bind_some]
    show ((vs2 j).elements.bind fun xs =>
      (ctor_copy (vs2 i).endOfStorage (vs2 i).slots xs 0).bind fun s =>
        some (update vs2 i { vs2 i with slots := s, finish := xs.length })) = _
    simp only [hxs, hcopy', Option.bind_some]
  · have hk := hupdate hroom hdone k
    rwa [update_idem _ _ ls] at hk

/-- A vector that is assigned to itself has been cleared before it is copied. -/
theorem vectorAssignRight_iff {vs : ι → Vector T} {ls : ι → List T}
    (h : ∀ k, Contains (vs k) (ls k)) (i j : ι) :
    VectorAssignRight vs ls i j ↔ i ≠ j ∨ ls j = [] := by
  obtain ⟨vs', hassign, h'⟩ := operatorAssign_contains h i j
  by_cases hij : i = j
  · subst hij
    constructor
    · rintro ⟨vs2, hcall, h2⟩
      obtain rfl := Option.some.inj (hassign.symm.trans hcall)
      have hlen := (h' i).finish_eq.symm.trans (h2 i).finish_eq
      simp only [update_self, length_nil] at hlen
      exact Or.inr (length_eq_zero_iff.mp hlen.symm)
    · rintro (hne | hnil)
      · exact absurd rfl hne
      · refine ⟨vs', hassign, fun k => ?_⟩
        have hk := h' k
        rwa [update_self, ← hnil] at hk
  · refine ⟨fun _ => Or.inl hij, fun _ => ⟨vs', hassign, fun k => ?_⟩⟩
    have hk := h' k
    rwa [update_of_ne (Ne.symm hij)] at hk

end Hostboot.Util.StlVector
