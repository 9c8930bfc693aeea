import Mathlib.Data.List.Basic

/-!
# Pools of shared objects

A flyweight keeps one object for each key: `get` answers with the object that
is equal to the key, and makes a new one when there is none.  `FlyWeightS`
keeps the pointers to its objects in sorted rows.

An object is named by its place in the order of creation.  The arrays that the
objects are made in are taken together: the `heap` of a pool is the list of the
objects handed out so far.  What a pool compares with is a parameter, since a
class may define an equality that is not equality of its fields.

The lemmas say what every caller relies on, whatever the comparison does:
`get` answers with an object that the class calls equal to the key, and no
object that was handed out before moves or changes.
-/

namespace Hostboot.Prdf

variable {T : Type}

/-- The comparisons of a class that a `FlyWeightS` uses: `operator==`,
`operator<` and `operator>=`. -/
structure KeyOrder (T : Type) where
  eq : T → T → Bool
  lt : T → T → Bool
  ge : T → T → Bool

/-- `FlyWeightS`: the objects in the order of their creation, the rows of
pointers to them, and the sizes that decide when the rows grow.  `S` is the
second parameter of the class. -/
structure FlyWeightS (T : Type) (S : Nat) where
  heap : List T := []
  rows : List (List Nat) := []
  rowSize : Nat := 2
  colSize : Nat := S

namespace FlyWeightS

variable {S : Nat}

/-- Whether the object that a pointer names has a property. -/
def test (pool : FlyWeightS T S) (p : T → Bool) (ptr : Option Nat) : Bool :=
  (ptr.bind fun k => pool.heap[k]?).any p

/-- The binary search of `find`: the last place between `lo` and `hi` whose
element the key is not below, as far as the search looks. -/
def bisect (p : Nat → Bool) : Nat → Nat → Nat → Nat
  | 0, lo, _ => lo
  | n + 1, lo, hi =>
    if lo = hi then lo
    else
      let d := (hi - lo) / 2 + 1
      if p (lo + d) then bisect p n (lo + d) hi else bisect p n lo (lo + d - 1)

/-- The row and the column that `find` leaves in the hint. -/
def hint (ord : KeyOrder T) (pool : FlyWeightS T S) (key : T) : Nat × Nat :=
  let lastRow := pool.rows.length - 1
  let row := bisect (fun r => pool.test (ord.ge key) (pool.rows.getD r []).head?) lastRow 0 lastRow
  let col := pool.rows.getD row []
  let lastCol := col.length - 1
  (row, bisect (fun c => pool.test (ord.ge key) col[c]?) lastCol 0 lastCol)

/-- `find`: the object at the hint, when it is equal to the key. -/
def find (ord : KeyOrder T) (pool : FlyWeightS T S) (key : T) : Option Nat :=
  match (pool.rows.getD (pool.hint ord key).1 [])[(pool.hint ord key).2]? with
  | some k => if pool.test (ord.eq key) (some k) then some k else none
  | none => none

/-- The merge loop of `increaseSize` from the row `cur` on: the rows that
follow are appended to it as long as they fit into the former column size. -/
def mergeRows (limit : Nat) : List Nat → List (List Nat) → List (List Nat)
  | cur, [] => [cur]
  | cur, next :: rows =>
    if cur.length + next.length ≤ limit then mergeRows limit (cur ++ next) rows
    else cur :: mergeRows limit next rows

def increaseSize (pool : FlyWeightS T S) : FlyWeightS T S :=
  { pool with
    rowSize := pool.rowSize * 2
    colSize := pool.colSize + S
    rows :=
      match pool.rows with
      | [] => []
      | row :: rows => mergeRows pool.colSize row rows }

/-- `insertRow`: a new row with one pointer, before the row `pos`. -/
def insertRow (pool : FlyWeightS T S) (pos ptr : Nat) : FlyWeightS T S :=
  let pool := { pool with rows := pool.rows.insertIdx pos [ptr] }
  if pool.rows.length > pool.rowSize then pool.increaseSize else pool

/-- The column that `insert` puts a pointer at: after the hint when the key
is above the object there. -/
def insertCol (ord : KeyOrder T) (pool : FlyWeightS T S) (key : T) (col : List Nat) (c : Nat) :
    Nat :=
  if pool.test (fun e => ord.lt e key) col[c]? then c + 1 else c

/-- The end of `insert` for a full row: the pointer `next` goes to the front of
the row `row`, or into a row of its own before it. -/
def overflow (pool : FlyWeightS T S) (row next : Nat) : FlyWeightS T S :=
  if row = pool.rows.length then pool.insertRow row next
  else if (pool.rows.getD row []).length < pool.colSize then
    { pool with rows := pool.rows.set row (next :: pool.rows.getD row []) }
  else pool.insertRow row next

/-- The rows of `insert` for the new pointer `ptr`. -/
def insertPtr (ord : KeyOrder T) (pool : FlyWeightS T S) (key : T) (row c ptr : Nat) :
    FlyWeightS T S :=
  let col := pool.rows.getD row []
  let place := pool.insertCol ord key col c
  if col.length < pool.colSize then
    { pool with rows := pool.rows.set row (col.insertIdx place ptr) }
  else if pool.test (fun e => ord.lt e key) col.getLast? then
    -- the key is above the whole row: the new pointer goes to the next one
    pool.overflow (row + 1) ptr
  else
    overflow { pool with rows := pool.rows.set row (col.dropLast.insertIdx place ptr) } (row + 1)
      (col.getLast?.getD ptr)

/-- `insert`: the key copied to the heap, and a pointer to it in the rows. -/
def insert (ord : KeyOrder T) (pool : FlyWeightS T S) (key : T) : FlyWeightS T S :=
  let grown := { pool with heap := pool.heap ++ [key] }
  let ptr := pool.heap.length
  if pool.heap.isEmpty then grown.insertRow 0 ptr
  else grown.insertPtr ord key (pool.hint ord key).1 (pool.hint ord key).2 ptr

/-- `FlyWeightS::get`: the object and the pool after the call. -/
def get (ord : KeyOrder T) (pool : FlyWeightS T S) (key : T) : Nat × FlyWeightS T S :=
  match (if pool.heap.isEmpty then none else pool.find ord key) with
  | some k => (k, pool)
  | none => (pool.heap.length, pool.insert ord key)

/-! ### What a caller relies on -/

@[simp] theorem heap_insertRow (pool : FlyWeightS T S) (pos ptr : Nat) :
    (pool.insertRow pos ptr).heap = pool.heap := by
  unfold insertRow
  dsimp only
  split
  · rfl
  · rfl

@[simp] theorem heap_overflow (pool : FlyWeightS T S) (row next : Nat) :
    (pool.overflow row next).heap = pool.heap := by
  unfold overflow
  split
  · rw [heap_insertRow]
  · split
    · rfl
    · rw [heap_insertRow]

@[simp] theorem heap_insertPtr (ord : KeyOrder T) (pool : FlyWeightS T S) (key : T)
    (row c ptr : Nat) : (pool.insertPtr ord key row c ptr).heap = pool.heap := by
  unfold insertPtr
  dsimp only
  split
  · rfl
  · split
    · rw [heap_overflow]
    · rw [heap_overflow]

@[simp] theorem heap_insert (ord : KeyOrder T) (pool : FlyWeightS T S) (key : T) :
    (pool.insert ord key).heap = pool.heap ++ [key] := by
  unfold insert
  dsimp only
  split
  · rw [heap_insertRow]
  · rw [heap_insertPtr]

theorem find_sound {ord : KeyOrder T} {pool : FlyWeightS T S} {key : T} {k : Nat}
    (h : pool.find ord key = some k) : ∃ e, pool.heap[k]? = some e ∧ ord.eq key e = true := by
  unfold find at h
  split at h
  · rename_i k' _
    split at h
    · rename_i htest
      have hk : k' = k := Option.some.inj h
      rw [hk] at htest
      unfold test at htest
      rw [Option.bind_some, Option.any_eq_true] at htest
      exact htest
    · exact absurd h (by simp)
  · exact absurd h (by simp)

/-- What `get` answers: an object that was there and that the class calls
equal to the key, or a new copy of the key. -/
theorem get_cases (ord : KeyOrder T) (pool : FlyWeightS T S) (key : T) :
    (∃ k e, pool.heap[k]? = some e ∧ ord.eq key e = true ∧ get ord pool key = (k, pool)) ∨
      get ord pool key = (pool.heap.length, pool.insert ord key) := by
  unfold get
  cases hempty : pool.heap.isEmpty with
  | true => exact Or.inr rfl
  | false =>
    cases hfind : pool.find ord key with
    | none =>
      right
      simp
    | some k =>
      left
      obtain ⟨e, he, heq⟩ := find_sound hfind
      exact ⟨k, e, he, heq, by simp⟩

theorem get_heap (ord : KeyOrder T) (pool : FlyWeightS T S) (key : T) :
    pool.heap <+: (get ord pool key).2.heap := by
  rcases get_cases ord pool key with ⟨k, e, _, _, hget⟩ | hget
  · have hsame : (get ord pool key).2.heap = pool.heap := by rw [hget]
    exact ⟨[], by rw [List.append_nil, hsame]⟩
  · rw [hget]
    dsimp only
    rw [heap_insert]
    exact List.prefix_append _ _

theorem get_eq {ord : KeyOrder T} (heq : ∀ a b, ord.eq a b = true → a = b)
    (pool : FlyWeightS T S) (key : T) :
    (get ord pool key).2.heap[(get ord pool key).1]? = some key := by
  rcases get_cases ord pool key with ⟨k, e, he, htest, hget⟩ | hget
  · rw [hget, heq key e htest]
    exact he
  · rw [hget]
    dsimp only
    rw [heap_insert]
    exact List.getElem?_concat_length

end FlyWeightS

end Hostboot.Prdf
