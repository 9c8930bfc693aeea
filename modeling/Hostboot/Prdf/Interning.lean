import Hostboot.Lib.Lists
import Hostboot.Prdf.FlyWeight
import Mathlib.Data.List.GetD
import Mathlib.Data.List.Nodup
import Mathlib.Data.List.Perm.Basic
import Mathlib.Order.Basic
import Mathlib.Order.Lattice

/-!
# The sorted pool interns its keys

For a totally ordered key, the rows of a `FlyWeightS` are one sorted list cut
into pieces.  `Interned` is that invariant: no row is empty, the rows hold each
object once, and the objects stand in ascending order.
-/

namespace Hostboot.Prdf.FlyWeightS

open List

variable {T : Type} {S : Nat}

/-! ## The binary search -/

/-- The search ends at the last place where the answer is yes, or at the first
place. -/
theorem bisect_spec (p : Nat → Bool) (n : Nat) : ∀ lo hi, lo ≤ hi → hi - lo ≤ n →
    (∀ i j, lo < i → i ≤ j → j ≤ hi → p j = true → p i = true) →
    lo ≤ bisect p n lo hi ∧ bisect p n lo hi ≤ hi ∧
      (bisect p n lo hi = lo ∨ p (bisect p n lo hi) = true) ∧
      ∀ j, bisect p n lo hi < j → j ≤ hi → p j = false := by
  induction n with
  | zero =>
    intro lo hi hle hn _
    rw [bisect]
    exact ⟨Nat.le_refl _, hle, .inl rfl, fun j hlo hhi => absurd hlo (by omega)⟩
  | succ n ih =>
    intro lo hi hle hn hmono
    rw [bisect]
    by_cases heq : lo = hi
    · rw [if_pos heq]
      exact ⟨Nat.le_refl _, hle, .inl rfl, fun j hlo hhi => absurd hlo (by omega)⟩
    rw [if_neg heq]
    dsimp only
    by_cases hmid : p (lo + ((hi - lo) / 2 + 1)) = true
    · rw [if_pos hmid]
      obtain ⟨hlo, hhi, hyes, hno⟩ := ih (lo + ((hi - lo) / 2 + 1)) hi (by omega) (by omega)
        fun i j hi' hij hj => hmono i j (by omega) hij hj
      refine ⟨by omega, hhi, .inr ?_, hno⟩
      rcases hyes with hyes | hyes
      · rw [hyes]
        exact hmid
      · exact hyes
    · rw [if_neg hmid]
      obtain ⟨hlo, hhi, hyes, hno⟩ := ih lo (lo + ((hi - lo) / 2 + 1) - 1) (by omega) (by omega)
        fun i j hi' hij hj => hmono i j hi' hij (by omega)
      refine ⟨hlo, by omega, hyes, fun j hlo' hhi' => ?_⟩
      by_cases hj : j ≤ lo + ((hi - lo) / 2 + 1) - 1
      · exact hno j hlo' hj
      · cases hpj : p j with
        | false => rfl
        | true => exact absurd (hmono _ j (by omega) (by omega) hhi' hpj) hmid

/-- The search over a list splits it: the answer is yes up to the place found,
unless that is the first, and no behind it. -/
theorem bisect_split {α : Type} {l : List α} {q : α → Bool} {p : Nat → Bool} (hne : l ≠ [])
    (hp : ∀ i x, l[i]? = some x → p i = q x)
    (hmono : l.Pairwise fun x y => q y = true → q x = true) :
    ∃ a x b, l = a ++ x :: b ∧ a.length = bisect p (l.length - 1) 0 (l.length - 1) ∧
      (a = [] ∨ q x = true) ∧ ∀ y ∈ b, q y = false := by
  have hpos := length_pos_iff.mpr hne
  obtain ⟨_, hhi, hyes, hno⟩ := bisect_spec p (l.length - 1) 0 (l.length - 1) (Nat.zero_le _)
    (Nat.le_refl _) fun i j _ hij hj hpj => by
      have hi : i < l.length := by omega
      have hj' : j < l.length := by omega
      rw [hp j l[j] (getElem?_eq_getElem hj')] at hpj
      rw [hp i l[i] (getElem?_eq_getElem hi)]
      rcases Nat.lt_or_eq_of_le hij with hlt | heq
      · exact pairwise_iff_getElem.mp hmono i j hi hj' hlt hpj
      · subst heq
        exact hpj
  generalize bisect p (l.length - 1) 0 (l.length - 1) = m at hhi hyes hno ⊢
  have hm : m < l.length := by omega
  refine ⟨l.take m, l[m], l.drop (m + 1), ?_, ?_, ?_, fun y hy => ?_⟩
  · rw [← drop_eq_getElem_cons hm, take_append_drop]
  · rw [length_take]
    omega
  · rcases hyes with hzero | hyes
    · left
      rw [hzero, take_zero]
    · right
      rw [← hp m l[m] (getElem?_eq_getElem hm)]
      exact hyes
  · obtain ⟨i, hi, rfl⟩ := getElem_of_mem hy
    rw [length_drop] at hi
    rw [getElem_drop, ← hp (m + 1 + i) _ (getElem?_eq_getElem (by omega))]
    exact hno (m + 1 + i) (by omega) (by omega)

/-! ## The rows -/

theorem getElem_hint {pool : FlyWeightS T S} {A B : List (List Nat)} {l l' : List Nat}
    {e r c : Nat} (hrows : pool.rows = A ++ (l ++ e :: l') :: B) (hr : A.length = r)
    (hc : l.length = c) :
    pool.rows.getD r [] = l ++ e :: l' ∧ (pool.rows.getD r [])[c]? = some e := by
  have hrow : pool.rows.getD r [] = l ++ e :: l' := by
    rw [hrows, ← hr, getD_append_right _ _ _ _ (Nat.le_refl _), Nat.sub_self,
      getD_cons_zero]
  refine ⟨hrow, ?_⟩
  rw [hrow, ← hc, getElem?_append_right (Nat.le_refl _), Nat.sub_self, getElem?_cons_zero]

theorem mergeRows_flatten (limit : Nat) (rows : List (List Nat)) : ∀ cur,
    (mergeRows limit cur rows).flatten = cur ++ rows.flatten := by
  induction rows with
  | nil =>
    intro cur
    rw [mergeRows, flatten_cons]
  | cons next rows ih =>
    intro cur
    rw [mergeRows]
    split
    · rw [ih, flatten_cons, append_assoc]
    · rw [flatten_cons, ih, flatten_cons]

theorem mergeRows_ne (limit : Nat) (rows : List (List Nat)) : ∀ cur, cur ≠ [] →
    (∀ row ∈ rows, row ≠ []) → ∀ row ∈ mergeRows limit cur rows, row ≠ [] := by
  induction rows with
  | nil =>
    intro cur hcur _ row hrow
    rw [mergeRows] at hrow
    rw [mem_singleton.mp hrow]
    exact hcur
  | cons next rows ih =>
    intro cur hcur hrows row hrow
    have hrows' : ∀ row ∈ rows, row ≠ [] := fun row' h' => hrows row' (mem_cons_of_mem _ h')
    rw [mergeRows] at hrow
    split at hrow
    · exact ih (cur ++ next) (append_ne_nil_of_left_ne_nil hcur _) hrows' row hrow
    · rcases mem_cons.mp hrow with rfl | hrow
      · exact hcur
      · exact ih next (hrows next mem_cons_self) hrows' row hrow

/-- A pool whose rows are the flat list `l`, and none of them empty. -/
def Flat (pool : FlyWeightS T S) (l : List Nat) : Prop :=
  pool.rows.flatten = l ∧ ∀ row ∈ pool.rows, row ≠ []

theorem Flat.increaseSize {pool : FlyWeightS T S} {l : List Nat} (h : Flat pool l) :
    Flat pool.increaseSize l := by
  unfold Flat FlyWeightS.increaseSize
  dsimp only
  cases hrows : pool.rows with
  | nil =>
    unfold Flat at h
    rw [hrows] at h
    exact h
  | cons row rows =>
    unfold Flat at h
    rw [hrows] at h
    exact ⟨(mergeRows_flatten _ rows row).trans h.1,
      mergeRows_ne _ rows row (h.2 row mem_cons_self) fun row' h' =>
        h.2 row' (mem_cons_of_mem _ h')⟩

theorem insertRow_flat {pool : FlyWeightS T S} {A B : List (List Nat)} (ptr : Nat)
    (hrows : pool.rows = A ++ B) (hne : ∀ row ∈ pool.rows, row ≠ []) :
    Flat (pool.insertRow A.length ptr) (A.flatten ++ ptr :: B.flatten) := by
  have hflat : Flat ({ pool with rows := pool.rows.insertIdx A.length [ptr] } : FlyWeightS T S)
      (A.flatten ++ ptr :: B.flatten) := by
    unfold Flat
    dsimp only
    rw [hrows] at hne ⊢
    rw [Lib.Lists.insertIdx_middle]
    refine ⟨by rw [flatten_append, flatten_cons]; rfl, fun row hrow => ?_⟩
    rcases mem_append.mp hrow with hrow | hrow
    · exact hne row (mem_append_left _ hrow)
    · rcases mem_cons.mp hrow with rfl | hrow
      · exact cons_ne_nil _ _
      · exact hne row (mem_append_right _ hrow)
  unfold insertRow
  dsimp only
  split
  · exact hflat.increaseSize
  · exact hflat

theorem overflow_flat {pool : FlyWeightS T S} {A B : List (List Nat)} (next : Nat)
    (hrows : pool.rows = A ++ B) (hne : ∀ row ∈ pool.rows, row ≠ []) :
    Flat (pool.overflow A.length next) (A.flatten ++ next :: B.flatten) := by
  unfold overflow
  split
  · exact insertRow_flat next hrows hne
  rename_i hend
  split
  · cases B with
    | nil => exact absurd (by rw [hrows, append_nil]) hend
    | cons row B =>
      have hrow : pool.rows.getD A.length [] = row := by
        rw [hrows, getD_append_right _ _ _ _ (Nat.le_refl _), Nat.sub_self,
          getD_cons_zero]
      have hset : pool.rows.set A.length (next :: row) = A ++ (next :: row) :: B := by
        rw [hrows, set_append_right _ _ (Nat.le_refl _), Nat.sub_self, set_cons_zero]
      unfold Flat
      dsimp only
      rw [hrow, hset]
      rw [hrows] at hne
      refine ⟨by rw [flatten_append, flatten_cons, flatten_cons, cons_append],
        fun row' h' => ?_⟩
      rcases mem_append.mp h' with h' | h'
      · exact hne row' (mem_append_left _ h')
      · rcases mem_cons.mp h' with rfl | h'
        · exact cons_ne_nil _ _
        · exact hne row' (mem_append_right _ (mem_cons_of_mem _ h'))
  · exact insertRow_flat next hrows hne

/-- Whatever the rows do, a new pointer stands between the elements `l1` and
`l2` of its row. -/
theorem insertPtr_flat {ord : KeyOrder T} {pool : FlyWeightS T S} {key : T}
    {A B : List (List Nat)} {l1 l2 : List Nat} {c : Nat} (ptr : Nat)
    (hrows : pool.rows = A ++ (l1 ++ l2) :: B) (hne : ∀ row ∈ pool.rows, row ≠ [])
    (hplace : pool.insertCol ord key (l1 ++ l2) c = l1.length)
    (hlast : pool.test (fun e => ord.lt e key) (l1 ++ l2).getLast? = true ↔ l2 = []) :
    Flat (pool.insertPtr ord key A.length c ptr)
      ((A.flatten ++ l1) ++ ptr :: (l2 ++ B.flatten)) := by
  have hrow : pool.rows.getD A.length [] = l1 ++ l2 := by
    rw [hrows, getD_append_right _ _ _ _ (Nat.le_refl _), Nat.sub_self, getD_cons_zero]
  have hset : ∀ row, pool.rows.set A.length row = A ++ row :: B := by
    intro row
    rw [hrows, set_append_right _ _ (Nat.le_refl _), Nat.sub_self, set_cons_zero]
  have hne_set : ∀ row, row ≠ [] → ∀ row' ∈ A ++ row :: B, row' ≠ [] := by
    intro row hrow_ne row' h'
    rw [hrows] at hne
    rcases mem_append.mp h' with h' | h'
    · exact hne row' (mem_append_left _ h')
    · rcases mem_cons.mp h' with rfl | h'
      · exact hrow_ne
      · exact hne row' (mem_append_right _ (mem_cons_of_mem _ h'))
  have hflat : ∀ row, (A ++ row :: B).flatten = A.flatten ++ (row ++ B.flatten) := by
    intro row
    rw [flatten_append, flatten_cons]
  unfold insertPtr
  dsimp only
  rw [hrow, hplace]
  split
  · -- the row has room
    unfold Flat
    dsimp only
    rw [hset, Lib.Lists.insertIdx_middle, hflat]
    exact ⟨by simp, hne_set _ (by simp)⟩
  split
  · -- the new pointer goes behind the whole row
    rename_i habove
    have hnil := hlast.mp habove
    subst hnil
    have hlen : A.length + 1 = (A ++ [l1]).length := by simp
    have hrows' : pool.rows = (A ++ [l1]) ++ B := by
      rw [hrows]
      simp
    have hover := overflow_flat ptr hrows' hne
    rw [hlen]
    simpa using hover
  · -- the last pointer of the row goes on, and the new one takes a place in the row
    rename_i hbelow
    have hl2 : l2 ≠ [] := fun hnil => hbelow (hlast.mpr hnil)
    obtain ⟨l3, x, rfl⟩ := eq_nil_or_concat' l2 |>.resolve_left hl2
    have hdrop : (l1 ++ (l3 ++ [x])).dropLast = l1 ++ l3 := by
      rw [← append_assoc, dropLast_concat]
    have hget : (l1 ++ (l3 ++ [x])).getLast?.getD ptr = x := by
      rw [← append_assoc, getLast?_concat, Option.getD_some]
    rw [hdrop, hget, Lib.Lists.insertIdx_middle, hset]
    have hlen : A.length + 1 = (A ++ [l1 ++ ptr :: l3]).length := by simp
    have hover := overflow_flat x
      (show FlyWeightS.rows (S := S) { pool with rows := A ++ (l1 ++ ptr :: l3) :: B }
        = (A ++ [l1 ++ ptr :: l3]) ++ B by simp) (hne_set _ (by simp))
    rw [hlen]
    simpa using hover

/-! ## The invariant -/

variable [LinearOrder T]

/-- The comparisons of a totally ordered class. -/
def linear : KeyOrder T where
  eq a b := decide (a = b)
  lt a b := decide (a < b)
  ge a b := decide (b ≤ a)

/-- The object at one pointer is below the object at another. -/
def Below (heap : List T) (k k' : Nat) : Prop :=
  ∃ a b, heap[k]? = some a ∧ heap[k']? = some b ∧ a < b

/-- The rows are sorted, in themselves and among each other, none is empty, and
they hold each object once. -/
structure Interned (pool : FlyWeightS T S) : Prop where
  rows_ne : ∀ row ∈ pool.rows, row ≠ []
  once : pool.rows.flatten.Perm (List.range pool.heap.length)
  sorted : pool.rows.flatten.Pairwise (Below pool.heap)

theorem Below.getD {heap : List T} {k k' : Nat} (h : Below heap k k') (d : T) :
    heap.getD k d < heap.getD k' d := by
  obtain ⟨a, b, ha, hb, hlt⟩ := h
  rw [getD_eq_getElem?_getD, getD_eq_getElem?_getD, ha, hb]
  exact hlt

namespace Interned

variable {pool : FlyWeightS T S}

theorem sorted_getD (h : Interned pool) (d : T) :
    pool.rows.flatten.Pairwise fun k k' => pool.heap.getD k d < pool.heap.getD k' d :=
  h.sorted.imp fun hlt => hlt.getD d

theorem lt_length (h : Interned pool) {k : Nat} (hk : k ∈ pool.rows.flatten) :
    k < pool.heap.length :=
  mem_range.mp (h.once.mem_iff.mp hk)

theorem test_eq (h : Interned pool) (p : T → Bool) (d : T) {k : Nat}
    (hk : k ∈ pool.rows.flatten) : pool.test p (some k) = p (pool.heap.getD k d) := by
  have hlt := h.lt_length hk
  rw [test, Option.bind_some, getElem?_eq_getElem hlt, Option.any_some,
    getD_eq_getElem _ _ hlt]

theorem rows_ne_nil (h : Interned pool) (hne : pool.heap ≠ []) : pool.rows ≠ [] := by
  intro hnil
  have hlen := h.once.length_eq
  rw [hnil, length_range] at hlen
  exact hne (length_eq_zero_iff.mp hlen.symm)

end Interned

/-! ## The hint -/

/-- The two searches find the element that splits the rows: everything before
it is below the key, and everything behind it is above. -/
theorem hint_split {pool : FlyWeightS T S} (h : Interned pool) (hne : pool.heap ≠ []) (key : T) :
    ∃ A l e l' B, pool.rows = A ++ (l ++ e :: l') :: B ∧
      A.length = (pool.hint linear key).1 ∧ l.length = (pool.hint linear key).2 ∧
      (∀ k ∈ A.flatten ++ l, pool.heap.getD k key < key) ∧
      ∀ k ∈ l' ++ B.flatten, key < pool.heap.getD k key := by
  have hsorted := h.sorted_getD key
  -- the rows whose first element the key is not below come first
  have hrow : ∀ r row, pool.rows[r]? = some row →
      pool.test (linear.ge key) (pool.rows.getD r []).head? = pool.test (linear.ge key) row.head? := by
    intro r row hr
    rw [getD_eq_getElem?_getD, hr, Option.getD_some]
  have hhead : ∀ row ∈ pool.rows, ∃ x xs, row = x :: xs ∧
      (pool.test (linear.ge key) row.head? = true ↔ pool.heap.getD x key ≤ key) := by
    intro row hmem
    obtain ⟨x, xs, rfl⟩ := exists_cons_of_ne_nil (h.rows_ne row hmem)
    refine ⟨x, xs, rfl, ?_⟩
    have hx : x ∈ pool.rows.flatten := mem_flatten.mpr ⟨_, hmem, mem_cons_self⟩
    rw [head?_cons, h.test_eq _ key hx]
    exact decide_eq_true_iff
  have hmono : pool.rows.Pairwise fun row row' =>
      pool.test (linear.ge key) row'.head? = true → pool.test (linear.ge key) row.head? = true := by
    refine (pairwise_flatten.mp hsorted).2.imp_of_mem ?_
    intro row row' hmem hmem' hlt hle
    obtain ⟨x, xs, rfl, hx⟩ := hhead row hmem
    obtain ⟨y, ys, rfl, hy⟩ := hhead row' hmem'
    exact hx.mpr ((le_of_lt (hlt x mem_cons_self y mem_cons_self)).trans (hy.mp hle))
  obtain ⟨A, row, B, hrows, hA, hrow_le, hB⟩ := bisect_split (h.rows_ne_nil hne) hrow hmono
  have hflat : pool.rows.flatten = A.flatten ++ (row ++ B.flatten) := by
    rw [hrows, flatten_append, flatten_cons]
  have hmem : ∀ row' ∈ A ++ row :: B, row' ∈ pool.rows := fun row' h' => by
    rw [hrows]
    exact h'
  have hrow_mem : row ∈ pool.rows :=
    hmem row (mem_append_right _ mem_cons_self)
  rw [hflat, pairwise_append, pairwise_append] at hsorted
  obtain ⟨_, ⟨hrow_sorted, hB_sorted, _⟩, hA_lt⟩ := hsorted
  have hA_below : ∀ k ∈ A.flatten, pool.heap.getD k key < key := by
    intro k hk
    rcases hrow_le with hnil | hle
    · rw [hnil] at hk
      exact absurd hk not_mem_nil
    · obtain ⟨x, xs, hrow_eq, hx⟩ := hhead row hrow_mem
      have hx_mem : x ∈ row ++ B.flatten := by
        rw [hrow_eq]
        exact mem_append_left _ mem_cons_self
      exact lt_of_lt_of_le (hA_lt k hk x hx_mem) (hx.mp hle)
  have hB_above : ∀ k ∈ B.flatten, key < pool.heap.getD k key := by
    intro k hk
    obtain ⟨row', hrow', hk'⟩ := mem_flatten.mp hk
    obtain ⟨x, xs, hrow_eq, hx⟩ :=
      hhead row' (hmem row' (mem_append_right _ (mem_cons_of_mem _ hrow')))
    have hlt : key < pool.heap.getD x key := by
      rw [← not_le, ← hx, hB row' hrow']
      exact Bool.false_ne_true
    have hpair := (pairwise_flatten.mp hB_sorted).1 row' hrow'
    rw [hrow_eq] at hk' hpair
    rcases mem_cons.mp hk' with rfl | hk'
    · exact hlt
    · exact hlt.trans ((pairwise_cons.mp hpair).1 k hk')
  -- the search in the row
  have hcol_eq : pool.rows.getD (pool.hint linear key).1 [] = row := by
    show pool.rows.getD (bisect _ (pool.rows.length - 1) 0 (pool.rows.length - 1)) [] = row
    rw [← hA, hrows, getD_append_right _ _ _ _ (Nat.le_refl _), Nat.sub_self,
      getD_cons_zero]
  have hcol : ∀ k ∈ row, (pool.test (linear.ge key) (some k) = true ↔ pool.heap.getD k key ≤ key) := by
    intro k hk
    have hk' : k ∈ pool.rows.flatten := mem_flatten.mpr ⟨row, hrow_mem, hk⟩
    rw [h.test_eq _ key hk']
    exact decide_eq_true_iff
  obtain ⟨l, e, l', hl, hlen, he, hl'⟩ := bisect_split (h.rows_ne row hrow_mem)
    (p := fun c => pool.test (linear.ge key) row[c]?)
    (q := fun k => pool.test (linear.ge key) (some k)) (fun i x hi => congrArg _ hi)
    (hrow_sorted.imp_of_mem fun hx hy hlt hle =>
      (hcol _ hx).mpr ((le_of_lt hlt).trans ((hcol _ hy).mp hle)))
  refine ⟨A, l, e, l', B, by rw [← hl]; exact hrows, hA, ?_, fun k hk => ?_, fun k hk => ?_⟩
  · show l.length = bisect
      (fun c => pool.test (linear.ge key) (pool.rows.getD (pool.hint linear key).1 [])[c]?)
      ((pool.rows.getD (pool.hint linear key).1 []).length - 1) 0
      ((pool.rows.getD (pool.hint linear key).1 []).length - 1)
    rw [hcol_eq]
    exact hlen
  · rcases mem_append.mp hk with hk | hk
    · exact hA_below k hk
    · rw [hl] at hrow_sorted
      have he_mem : e ∈ row := by
        rw [hl]
        exact mem_append_right _ mem_cons_self
      rcases he with hnil | hle
      · rw [hnil] at hk
        exact absurd hk not_mem_nil
      · exact lt_of_lt_of_le
          ((pairwise_append.mp hrow_sorted).2.2 k hk e mem_cons_self) ((hcol e he_mem).mp hle)
  · rcases mem_append.mp hk with hk | hk
    · have hk_mem : k ∈ row := by
        rw [hl]
        exact mem_append_right _ (mem_cons_of_mem _ hk)
      rw [← not_le, ← hcol k hk_mem, hl' k hk]
      exact Bool.false_ne_true
    · exact hB_above k hk

theorem find_iff {pool : FlyWeightS T S} (h : Interned pool) (hne : pool.heap ≠ []) (key : T)
    (k : Nat) : pool.find linear key = some k ↔ pool.heap[k]? = some key := by
  obtain ⟨A, l, e, l', B, hrows, hr, hc, hbefore, hbehind⟩ := hint_split h hne key
  obtain ⟨_, he⟩ := getElem_hint hrows hr hc
  have hflat : pool.rows.flatten = (A.flatten ++ l) ++ e :: (l' ++ B.flatten) := by
    rw [hrows, flatten_append, flatten_cons]
    simp only [append_assoc, cons_append]
  have he_mem : e ∈ pool.rows.flatten := by
    rw [hflat]
    exact mem_append_right _ mem_cons_self
  have hfind : pool.find linear key
      = if pool.heap.getD e key = key then some e else none := by
    unfold find
    rw [he]
    dsimp only
    rw [h.test_eq _ key he_mem]
    refine if_congr ?_ rfl rfl
    exact decide_eq_true_iff.trans eq_comm
  have hvalue : ∀ {j}, pool.heap[j]? = some key → pool.heap.getD j key = key := by
    intro j hj
    rw [getD_eq_getElem?_getD, hj, Option.getD_some]
  rw [hfind]
  constructor
  · intro hsome
    by_cases heq : pool.heap.getD e key = key
    · rw [if_pos heq] at hsome
      have hk := Option.some.inj hsome
      subst hk
      have hlt := h.lt_length he_mem
      rw [getD_eq_getElem _ _ hlt] at heq
      rw [getElem?_eq_getElem hlt, heq]
    · rw [if_neg heq] at hsome
      cases hsome
  · intro hk
    have hlt : k < pool.heap.length := (List.getElem?_eq_some_iff.mp hk).1
    have hk_mem := h.once.mem_iff.mpr (mem_range.mpr hlt)
    rw [hflat] at hk_mem
    rcases mem_append.mp hk_mem with hk_mem | hk_mem
    · exact absurd (hbefore k hk_mem) (by rw [hvalue hk]; exact lt_irrefl key)
    · rcases mem_cons.mp hk_mem with rfl | hk_mem
      · rw [if_pos (hvalue hk)]
      · exact absurd (hbehind k hk_mem) (by rw [hvalue hk]; exact lt_irrefl key)

/-! ## The insertion -/

theorem Below.append {heap : List T} {k k' : Nat} (h : Below heap k k') (key : T) :
    Below (heap ++ [key]) k k' := by
  obtain ⟨a, b, ha, hb, hlt⟩ := h
  have hk := (List.getElem?_eq_some_iff.mp ha).1
  have hk' := (List.getElem?_eq_some_iff.mp hb).1
  exact ⟨a, b, (getElem?_append_left hk).trans ha, (getElem?_append_left hk').trans hb, hlt⟩

omit [LinearOrder T] in
theorem test_grown {pool : FlyWeightS T S} {key : T} (p : T → Bool)
    {k : Nat} (hk : k < pool.heap.length) :
    FlyWeightS.test (S := S) { pool with heap := pool.heap ++ [key] } p (some k)
      = p (pool.heap.getD k key) := by
  rw [test, Option.bind_some, getElem?_append_left hk, getElem?_eq_getElem hk,
    Option.any_some, getD_eq_getElem _ _ hk]

theorem test_getLast {pool : FlyWeightS T S} {key : T} {l1 l2 : List Nat} (hne : l1 ++ l2 ≠ [])
    (hbelow : ∀ k ∈ l1, k < pool.heap.length ∧ pool.heap.getD k key < key)
    (habove : ∀ k ∈ l2, k < pool.heap.length ∧ key < pool.heap.getD k key) :
    FlyWeightS.test (S := S) { pool with heap := pool.heap ++ [key] } (fun e => linear.lt e key)
      (l1 ++ l2).getLast? = true ↔ l2 = [] := by
  rcases eq_nil_or_concat' l2 with rfl | ⟨l3, x, rfl⟩
  · rw [append_nil] at hne ⊢
    obtain ⟨l3, x, rfl⟩ := (eq_nil_or_concat' l1).resolve_left hne
    obtain ⟨hlt, hx⟩ := hbelow x (mem_append_right _ mem_cons_self)
    rw [getLast?_concat, test_grown _ hlt]
    exact ⟨fun _ => rfl, fun _ => decide_eq_true hx⟩
  · obtain ⟨hlt, hx⟩ := habove x (mem_append_right _ mem_cons_self)
    rw [← append_assoc, getLast?_concat, test_grown _ hlt]
    refine ⟨fun hyes => absurd (of_decide_eq_true hyes) (not_lt_of_gt hx), fun hnil => ?_⟩
    exact absurd hnil (by simp)

theorem Interned.of_flat {pool pool' : FlyWeightS T S} {key : T} {l1 l2 : List Nat}
    (h : Interned pool) (hold : pool.rows.flatten = l1 ++ l2)
    (hheap : pool'.heap = pool.heap ++ [key])
    (hflat : Flat pool' (l1 ++ pool.heap.length :: l2))
    (hbelow : ∀ k ∈ l1, pool.heap.getD k key < key)
    (habove : ∀ k ∈ l2, key < pool.heap.getD k key) : Interned pool' := by
  have hlt : ∀ k ∈ l1 ++ l2, k < pool.heap.length := fun k hk => h.lt_length (by rw [hold]; exact hk)
  have hget : ∀ k < pool.heap.length,
      (pool.heap ++ [key])[k]? = some (pool.heap.getD k key) := by
    intro k hk
    rw [getElem?_append_left hk, getElem?_eq_getElem hk, getD_eq_getElem _ _ hk]
  have hnew : (pool.heap ++ [key])[pool.heap.length]? = some key := getElem?_concat_length
  have hsorted := h.sorted
  have honce := h.once
  rw [hold] at hsorted honce
  refine ⟨hflat.2, ?_, ?_⟩
  · rw [hflat.1, hheap, length_append, length_singleton, range_succ]
    exact (perm_middle.trans (honce.cons _)).trans (perm_append_singleton _ _).symm
  · rw [hflat.1, hheap]
    rw [pairwise_append] at hsorted
    obtain ⟨h1, h2, h12⟩ := hsorted
    refine pairwise_append.mpr ⟨h1.imp fun hb => hb.append key,
      pairwise_cons.mpr ⟨fun k hk => ?_, h2.imp fun hb => hb.append key⟩, fun k hk k' hk' => ?_⟩
    · exact ⟨key, _, hnew, hget k (hlt k (mem_append_right _ hk)), habove k hk⟩
    · rcases mem_cons.mp hk' with rfl | hk'
      · exact ⟨_, key, hget k (hlt k (mem_append_left _ hk)), hnew, hbelow k hk⟩
      · exact (h12 k hk k' hk').append key

theorem Interned.insert {pool : FlyWeightS T S} (h : Interned pool) {key : T}
    (hnew : key ∉ pool.heap) : Interned (pool.insert linear key) := by
  have hheap := heap_insert linear pool key
  unfold FlyWeightS.insert at hheap ⊢
  dsimp only at hheap ⊢
  by_cases hempty : pool.heap.isEmpty = true
  · -- the first object
    rw [if_pos hempty] at hheap ⊢
    have hnil : pool.heap = [] := List.isEmpty_iff.mp hempty
    have hflatten : pool.rows.flatten = ([] : List Nat) ++ [] := by
      have hlen := h.once.length_eq
      rw [hnil, length_nil, range_zero] at hlen
      exact length_eq_zero_iff.mp hlen
    have hrows : pool.rows = [] := by
      cases hrows : pool.rows with
      | nil => rfl
      | cons row rows =>
        have hne := h.rows_ne row (by rw [hrows]; exact mem_cons_self)
        rw [hrows, flatten_cons] at hflatten
        exact absurd (append_eq_nil_iff.mp hflatten).1 hne
    refine h.of_flat hflatten hheap ?_ (fun k hk => absurd hk not_mem_nil)
      fun k hk => absurd hk not_mem_nil
    exact @insertRow_flat T S { pool with heap := pool.heap ++ [key] } [] [] pool.heap.length hrows
      h.rows_ne
  rw [if_neg hempty] at hheap ⊢
  have hne : pool.heap ≠ [] := fun hnil => hempty (List.isEmpty_iff.mpr hnil)
  obtain ⟨A, l, e, l', B, hrows, hr, hc, hbefore, hbehind⟩ := hint_split h hne key
  have hold : pool.rows.flatten = A.flatten ++ (l ++ e :: l') ++ B.flatten := by
    rw [hrows, flatten_append, flatten_cons]
    exact (append_assoc _ _ _).symm
  have hlen : ∀ k ∈ A.flatten ++ (l ++ e :: l') ++ B.flatten, k < pool.heap.length :=
    fun k hk => h.lt_length (by rw [hold]; exact hk)
  have he_lt : e < pool.heap.length := hlen e (by simp)
  have hget : (l ++ e :: l')[(pool.hint linear key).2]? = some e := by
    rw [← hc, getElem?_append_right (Nat.le_refl _), Nat.sub_self, getElem?_cons_zero]
  -- the element at the hint is on one side of the key
  have hside : ∃ l1 l2, l ++ e :: l' = l1 ++ l2 ∧
      FlyWeightS.insertCol (S := S) linear { pool with heap := pool.heap ++ [key] } key
        (l ++ e :: l') (pool.hint linear key).2 = l1.length ∧
      (∀ k ∈ A.flatten ++ l1, pool.heap.getD k key < key) ∧
      ∀ k ∈ l2 ++ B.flatten, key < pool.heap.getD k key := by
    unfold insertCol
    rw [hget, test_grown _ he_lt]
    by_cases hlt : pool.heap.getD e key < key
    · refine ⟨l ++ [e], l', by simp, ?_, fun k hk => ?_, hbehind⟩
      · have hyes : linear.lt (pool.heap.getD e key) key = true := decide_eq_true hlt
        rw [if_pos hyes, length_append, hc]
        rfl
      · rw [← append_assoc] at hk
        rcases mem_append.mp hk with hk | hk
        · exact hbefore k hk
        · rw [mem_singleton.mp hk]
          exact hlt
    · have hvalue : pool.heap.getD e key ≠ key := by
        intro heq
        rw [getD_eq_getElem _ _ he_lt] at heq
        exact hnew (heq ▸ getElem_mem he_lt)
      have hgt : key < pool.heap.getD e key := lt_of_le_of_ne (not_lt.mp hlt) hvalue.symm
      refine ⟨l, e :: l', rfl, ?_, hbefore, fun k hk => ?_⟩
      · have hno : ¬ linear.lt (pool.heap.getD e key) key = true :=
          fun hyes => hlt (of_decide_eq_true hyes)
        rw [if_neg hno, hc]
      · rcases mem_cons.mp hk with rfl | hk
        · exact hgt
        · exact hbehind k hk
  obtain ⟨l1, l2, hsplit, hplace, hbelow, habove⟩ := hside
  rw [hsplit] at hrows hold hlen hplace
  have hlast := @test_getLast T S _ pool key l1 l2 (by rw [← hsplit]; simp)
    (fun k hk => ⟨hlen k (by simp [hk]), hbelow k (mem_append_right _ hk)⟩)
    (fun k hk => ⟨hlen k (by simp [hk]), habove k (mem_append_left _ hk)⟩)
  have hflat := @insertPtr_flat T S linear { pool with heap := pool.heap ++ [key] } key A B l1 l2
    (pool.hint linear key).2 pool.heap.length hrows h.rows_ne hplace hlast
  rw [hr] at hflat
  refine h.of_flat ?_ hheap hflat hbelow habove
  rw [hold]
  simp only [append_assoc]

/-! ## Sequences of calls -/

/-- The objects that a sequence of calls of `get` answers, and the pool behind
it. -/
def getAll (ord : KeyOrder T) : List T → FlyWeightS T S → List Nat × FlyWeightS T S
  | [], pool => ([], pool)
  | key :: keys, pool =>
    ((get ord pool key).1 :: (getAll ord keys (get ord pool key).2).1,
      (getAll ord keys (get ord pool key).2).2)

theorem interned_empty : Interned ({} : FlyWeightS T S) :=
  ⟨fun _ hrow => absurd hrow not_mem_nil, List.Perm.refl _, List.Pairwise.nil⟩

theorem Interned.nodup {pool : FlyWeightS T S} (h : Interned pool) : pool.heap.Nodup := by
  cases hheap : pool.heap with
  | nil => exact nodup_nil
  | cons d rest =>
    rw [← hheap]
    have hvalues : (List.range pool.heap.length).map (pool.heap.getD · d) = pool.heap := by
      refine ext_getElem (by rw [length_map, length_range]) fun i hi hi' => ?_
      rw [getElem_map, getElem_range, getD_eq_getElem _ _ hi']
    have hsorted : (pool.rows.flatten.map (pool.heap.getD · d)).Pairwise (· < ·) :=
      pairwise_map.mpr (h.sorted_getD d)
    have hnodup : (pool.rows.flatten.map (pool.heap.getD · d)).Nodup := hsorted.imp ne_of_lt
    rw [← hvalues]
    exact (h.once.map _).nodup_iff.mp hnodup

/-- What `get` answers: the object that is equal to the key, or a new one. -/
theorem Interned.get_spec {pool : FlyWeightS T S} (h : Interned pool) (key : T) :
    (∃ k, pool.heap[k]? = some key ∧ get linear pool key = (k, pool)) ∨
      (key ∉ pool.heap ∧ get linear pool key = (pool.heap.length, pool.insert linear key)) := by
  by_cases hmem : key ∈ pool.heap
  · left
    obtain ⟨k, hk⟩ := mem_iff_getElem?.mp hmem
    have hne : pool.heap ≠ [] := ne_nil_of_mem hmem
    have hempty : pool.heap.isEmpty = false := by
      rw [Bool.eq_false_iff]
      exact fun hnil => hne (List.isEmpty_iff.mp hnil)
    refine ⟨k, hk, ?_⟩
    unfold FlyWeightS.get
    rw [hempty, if_neg Bool.false_ne_true, (find_iff h hne key k).mpr hk]
  · right
    refine ⟨hmem, ?_⟩
    rcases get_cases linear pool key with ⟨k, e, he, heq, _⟩ | hget
    · have hkey : key = e := of_decide_eq_true heq
      exact absurd (hkey ▸ mem_of_getElem? he) hmem
    · exact hget

theorem Interned.get {pool : FlyWeightS T S} (h : Interned pool) (key : T) :
    Interned (get linear pool key).2 ∧
      ∀ x, x ∈ (FlyWeightS.get linear pool key).2.heap ↔ x ∈ pool.heap ∨ x = key := by
  rcases h.get_spec key with ⟨k, hk, hget⟩ | ⟨hnew, hget⟩
  · rw [hget]
    refine ⟨h, fun x => ⟨Or.inl, fun hx => hx.elim id fun heq => ?_⟩⟩
    rw [heq]
    exact mem_of_getElem? hk
  · rw [hget]
    refine ⟨h.insert hnew, fun x => ?_⟩
    rw [heap_insert, mem_append, mem_singleton]

/-- A sequence of calls: the invariant, the objects, and the answers, which
stay the objects of their keys. -/
theorem Interned.getAll (keys : List T) : ∀ {pool : FlyWeightS T S}, Interned pool →
    Interned (getAll linear keys pool).2 ∧
      (∀ x, x ∈ (FlyWeightS.getAll linear keys pool).2.heap ↔ x ∈ pool.heap ∨ x ∈ keys) ∧
      pool.heap <+: (FlyWeightS.getAll linear keys pool).2.heap ∧
      (FlyWeightS.getAll linear keys pool).1.map
          ((FlyWeightS.getAll linear keys pool).2.heap[·]?) = keys.map some := by
  induction keys with
  | nil =>
    intro pool h
    exact ⟨h, fun x => by simp [FlyWeightS.getAll], prefix_rfl, rfl⟩
  | cons key keys ih =>
    intro pool h
    obtain ⟨hstep, hmem⟩ := h.get key
    obtain ⟨hrun, hmems, hprefix, hanswers⟩ := ih hstep
    have hfirst := get_heap linear pool key
    rw [FlyWeightS.getAll]
    refine ⟨hrun, fun x => ?_, hfirst.trans hprefix, ?_⟩
    · rw [hmems, hmem, mem_cons, or_assoc]
    · rw [map_cons, map_cons, hanswers]
      congr 1
      have hkey := @get_eq T S linear (fun a b hab => of_decide_eq_true hab) pool key
      obtain ⟨rest, hrest⟩ := hprefix
      have hlt := (List.getElem?_eq_some_iff.mp hkey).1
      dsimp only
      rw [← hrest, getElem?_append_left hlt]
      exact hkey

/-- Interning, over all sequences of calls: the rows stay sorted and hold each
object once, the objects are the distinct keys, every stored key is found, and
each answer names the object of its key from then on, so that two answers are
the same exactly when their keys are. -/
theorem interning (keys : List T) :
    Interned (getAll linear keys ({} : FlyWeightS T S)).2 ∧
      (getAll linear keys ({} : FlyWeightS T S)).2.heap.Nodup ∧
      (∀ x, x ∈ (getAll linear keys ({} : FlyWeightS T S)).2.heap ↔ x ∈ keys) ∧
      (∀ x ∈ keys, ∃ k, (getAll linear keys ({} : FlyWeightS T S)).2.find linear x = some k ∧
        (getAll linear keys ({} : FlyWeightS T S)).2.heap[k]? = some x) ∧
      (getAll linear keys ({} : FlyWeightS T S)).1.map
          ((getAll linear keys ({} : FlyWeightS T S)).2.heap[·]?) = keys.map some ∧
      ∀ (i j k k' : Nat) (x y : T), keys[i]? = some x → keys[j]? = some y →
        (getAll linear keys ({} : FlyWeightS T S)).1[i]? = some k →
        (getAll linear keys ({} : FlyWeightS T S)).1[j]? = some k' → (k = k' ↔ x = y) := by
  obtain ⟨hrun, hmem, _, hanswers⟩ := Interned.getAll keys (interned_empty (T := T) (S := S))
  generalize getAll linear keys ({} : FlyWeightS T S) = r at hrun hmem hanswers ⊢
  have hmem' : ∀ x, x ∈ r.2.heap ↔ x ∈ keys := fun x => by simp [hmem]
  have hanswer : ∀ (i k : Nat) (x : T), keys[i]? = some x → r.1[i]? = some k →
      r.2.heap[k]? = some x := by
    intro i k x hx hk
    have hi := congrArg (·[i]?) hanswers
    simpa [hx, hk] using hi
  refine ⟨hrun, hrun.nodup, hmem', fun x hx => ?_, hanswers, fun i j k k' x y hx hy hk hk' => ?_⟩
  · obtain ⟨k, hk⟩ := mem_iff_getElem?.mp ((hmem' x).mpr hx)
    exact ⟨k, (find_iff hrun (ne_nil_of_mem ((hmem' x).mpr hx)) x k).mpr hk, hk⟩
  · have hobj := hanswer i k x hx hk
    have hobj' := hanswer j k' y hy hk'
    constructor
    · intro heq
      rw [heq, hobj'] at hobj
      exact (Option.some.inj hobj).symm
    · intro heq
      rw [heq] at hobj
      have hlt := (List.getElem?_eq_some_iff.mp hobj).1
      exact (getElem?_inj hlt hrun.nodup).mp (hobj.trans hobj'.symm)

end Hostboot.Prdf.FlyWeightS
