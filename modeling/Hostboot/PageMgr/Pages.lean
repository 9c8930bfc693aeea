import Mathlib
import Hostboot.Lib.Buckets
import Hostboot.PageMgr.Core

/-!
# What each operation of the page manager core does to the pages

`pages a n` is the multiset of the page numbers of `n` consecutive pages from
the address `a`, and `heapPages s` is the multiset of all pages in the free
lists of `s`, a block of list `k` counting as `2 ^ k` pages.  A multiset keeps
the number of times a page occurs, so an equation between multisets says that
no page is lost and no page is handed out twice.

This module has one lemma for each operation, of the form "the free pages
after it are the free pages before it plus or minus these pages".  Every lemma
also carries `BlocksOk`: the blocks in the free lists are page aligned, not
null, and below 4 GB, so the 32-bit pointers of the stack hold them.
-/

namespace Hostboot.PageMgr

open Hostboot.Util Hostboot.Lib List

/-- The page numbers of `n` consecutive pages from an address. -/
def pages (addr n : Nat) : Multiset Nat := ↑(List.range' (addr / PAGESIZE) n)

attribute [grind =] pages

@[simp] theorem pages_zero (addr : Nat) : pages addr 0 = 0 := rfl

@[simp] theorem card_pages (addr n : Nat) : Multiset.card (pages addr n) = n := by
  simp [pages]

theorem pages_add (addr m n : Nat) :
    pages addr (m + n) = pages addr m + pages (addr + m * PAGESIZE) n := by
  have hdiv : (addr + m * PAGESIZE) / PAGESIZE = addr / PAGESIZE + m :=
    Nat.add_mul_div_right addr m (by decide)
  unfold pages
  rw [hdiv, Multiset.coe_add, range'_append_1]

theorem pages_pow_succ (addr k : Nat) :
    pages addr (2 ^ (k + 1)) = pages addr (2 ^ k) + pages (addr + 2 ^ k * PAGESIZE) (2 ^ k) := by
  rw [← pages_add, Nat.pow_succ, Nat.mul_two]

theorem mem_pages {addr n x : Nat} :
    x ∈ pages addr n ↔ addr / PAGESIZE ≤ x ∧ x < addr / PAGESIZE + n := by
  simp [pages, mem_range'_1]

/-- A non-empty aligned extent that is not null and ends below 4 GB. -/
structure ExtentOk (addr n : Nat) : Prop where
  aligned : addr % PAGESIZE = 0
  pos : 0 < addr
  le : addr + n * PAGESIZE ≤ 2 ^ 32

theorem ExtentOk.left {addr m n : Nat} (h : ExtentOk addr (m + n)) : ExtentOk addr m where
  aligned := h.aligned
  pos := h.pos
  le := by
    have := h.le
    rw [Nat.add_mul] at this
    omega

theorem ExtentOk.right {addr m n : Nat} (h : ExtentOk addr (m + n)) :
    ExtentOk (addr + m * PAGESIZE) n where
  aligned := by rw [Nat.add_mul_mod_self_right]; exact h.aligned
  pos := by have := h.pos; omega
  le := by
    have := h.le
    rw [Nat.add_mul] at this
    omega

theorem ExtentOk.join {addr m n : Nat} (hl : ExtentOk addr m)
    (hr : ExtentOk (addr + m * PAGESIZE) n) : ExtentOk addr (m + n) where
  aligned := hl.aligned
  pos := hl.pos
  le := by
    have := hr.le
    rw [Nat.add_mul]
    omega

theorem ExtentOk.addr_lt {addr n : Nat} (h : ExtentOk addr n) (hn : 0 < n) :
    addr < 2 ^ 32 := by
  have hle := h.le
  have : 1 * PAGESIZE ≤ n * PAGESIZE := Nat.mul_le_mul_right _ hn
  unfold PAGESIZE at *
  omega

theorem ExtentOk.page_lt {addr n x : Nat} (h : ExtentOk addr n) (hx : x ∈ pages addr n) :
    x < 2 ^ 20 := by
  obtain ⟨h1, h2⟩ := mem_pages.1 hx
  have hle := h.le
  have hal := h.aligned
  unfold PAGESIZE at *
  omega

namespace PageManagerCore

/-- The pages in the free lists. -/
def heapPages (s : PageManagerCore) : Multiset Nat :=
  Buckets.content BUCKETS (fun k p => pages p (2 ^ k)) s.ivHeap

attribute [grind =] heapPages

/-- Every block in a free list is a proper extent. -/
def BlocksOk (s : PageManagerCore) : Prop :=
  ∀ k, ∀ p ∈ s.ivHeap k, ExtentOk p (2 ^ k)

/-- `s'` differs from `s` in the free lists and the page count only. -/
def SameRanges (s s' : PageManagerCore) : Prop :=
  s'.ivRanges = s.ivRanges ∧ s'.ivSupportsCoalesce = s.ivSupportsCoalesce

variable {s s' s'' : PageManagerCore} {p n fuel addr : Nat} {ranges : List (Nat × Nat)}

theorem SameRanges.trans (h : SameRanges s s') (h' : SameRanges s' s'') : SameRanges s s'' :=
  ⟨h'.1.trans h.1, h'.2.trans h.2⟩

@[simp] theorem heapPages_setAvailable (s : PageManagerCore) (n : Nat) :
    heapPages { s with ivAvailable := n } = heapPages s := rfl

theorem pushHeap_sameRanges (s : PageManagerCore) (p n : Nat) :
    SameRanges s (s.pushHeap p n) := ⟨rfl, rfl⟩

/-! ## Pushing a block -/

theorem heapPages_pushHeap (s : PageManagerCore) (hn : n < BUCKETS) (hp : ExtentOk p (2 ^ n)) :
    (s.pushHeap p n).heapPages = s.heapPages + pages p (2 ^ n) := by
  have hptr : getPtr p = p := getPtr_of_lt (hp.addr_lt (Nat.two_pow_pos n))
  unfold heapPages pushHeap Stack.push
  rw [hptr]
  exact Buckets.content_push BUCKETS _ s.ivHeap hn p

theorem blocksOk_pushHeap (hs : s.BlocksOk) (hp : ExtentOk p (2 ^ n)) :
    (s.pushHeap p n).BlocksOk := by
  have hptr : getPtr p = p := getPtr_of_lt (hp.addr_lt (Nat.two_pow_pos n))
  intro k q hq
  by_cases hk : k = n
  · subst hk
    simp only [pushHeap, Stack.push, hptr, Function.update_self, mem_cons] at hq
    rcases hq with rfl | hq
    · exact hp
    · exact hs _ _ hq
  · simp only [pushHeap, Function.update_of_ne hk] at hq
    exact hs _ _ hq

theorem pushBucket_of_lt (s : PageManagerCore) (p : Nat) (hn : n < BUCKETS) :
    s.pushBucket p n = s.pushHeap p n := by
  unfold pushBucket
  rw [if_neg (by omega)]

/-! ## Popping a block -/

/-- What a successful `pop_bucket` guarantees. -/
structure Popped (s : PageManagerCore) (n p : Nat) (s' : PageManagerCore) : Prop where
  lt : n < BUCKETS
  extent : ExtentOk p (2 ^ n)
  free : s'.heapPages + pages p (2 ^ n) = s.heapPages
  blocks : s'.BlocksOk
  available : s'.ivAvailable = s.ivAvailable
  ranges : SameRanges s s'

theorem popBucketLoop_none (h : popBucketLoop fuel s n = (none, s')) : s' = s := by
  induction fuel generalizing s s' n with
  | zero =>
    simp only [popBucketLoop, Prod.mk.injEq, true_and] at h
    exact h.symm
  | succ fuel ih =>
    simp only [popBucketLoop] at h
    split at h
    · simpa using h.symm
    · split at h
      · simp at h
      · split at h
        · rename_i hrec
          simp only [Prod.mk.injEq, true_and] at h
          rw [← h]
          exact ih hrec
        · simp at h

theorem popped_of_pop (hs : s.BlocksOk) {rest : List Nat} (hn : n < BUCKETS)
    (hpop : Stack.pop (s.ivHeap n) = some (p, rest)) :
    Popped s n p { s with ivHeap := Function.update s.ivHeap n rest } := by
  obtain ⟨hlist, -⟩ := Stack.pop_eq_some hpop
  refine ⟨hn, hs n p (by simp [hlist]), ?_, ?_, rfl, rfl, rfl⟩
  · exact Buckets.content_pop BUCKETS _ s.ivHeap hn hlist
  · intro k q hq
    by_cases hk : k = n
    · subst hk
      simp only [Function.update_self] at hq
      exact hs _ _ (by simp [hlist, hq])
    · simp only [Function.update_of_ne hk] at hq
      exact hs _ _ hq

theorem popped_of_split (h : Popped s (n + 1) p s') (hn : n < BUCKETS) :
    Popped s n p (s'.pushBucket (p + PAGESIZE * 2 ^ n) n) := by
  have hsplit : ExtentOk p (2 ^ n + 2 ^ n) := by
    rw [← Nat.mul_two, ← Nat.pow_succ]
    exact h.extent
  have hupper : ExtentOk (p + PAGESIZE * 2 ^ n) (2 ^ n) := by
    rw [Nat.mul_comm]
    exact hsplit.right
  rw [pushBucket_of_lt _ _ hn]
  refine ⟨hn, hsplit.left, ?_, blocksOk_pushHeap h.blocks hupper, h.available,
    h.ranges.trans (pushHeap_sameRanges _ _ _)⟩
  rw [heapPages_pushHeap _ hn hupper, ← h.free, pages_pow_succ, Nat.mul_comm PAGESIZE]
  abel

theorem popBucketLoop_some (hs : s.BlocksOk) (h : popBucketLoop fuel s n = (some p, s')) :
    Popped s n p s' := by
  induction fuel generalizing s' n p with
  | zero => simp [popBucketLoop] at h
  | succ fuel ih =>
    simp only [popBucketLoop] at h
    split at h
    · simp at h
    · rename_i hn
      have hn' : n < BUCKETS := by omega
      split at h
      · rename_i q rest hpop
        simp only [Prod.mk.injEq, Option.some.injEq] at h
        obtain ⟨rfl, rfl⟩ := h
        exact popped_of_pop hs hn' hpop
      · split at h
        · simp at h
        · rename_i hrec
          simp only [Prod.mk.injEq, Option.some.injEq] at h
          obtain ⟨rfl, rfl⟩ := h
          exact popped_of_split (ih hrec) hn'

theorem popRetry_none {retries : Nat} (h : popRetry retries s n = (none, s')) : s' = s := by
  induction retries generalizing s with
  | zero =>
    simp only [popRetry, Prod.mk.injEq, true_and] at h
    exact h.symm
  | succ retries ih =>
    simp only [popRetry] at h
    split at h
    · simp at h
    · rename_i hpop
      have hsame := popBucketLoop_none hpop
      subst hsame
      exact ih h

theorem popRetry_some {retries : Nat} (hs : s.BlocksOk) (h : popRetry retries s n = (some p, s')) :
    Popped s n p s' := by
  induction retries generalizing s with
  | zero => simp [popRetry] at h
  | succ retries ih =>
    simp only [popRetry] at h
    split at h
    · rename_i hpop
      simp only [Prod.mk.injEq, Option.some.injEq] at h
      obtain ⟨rfl, rfl⟩ := h
      exact popBucketLoop_some hs hpop
    · rename_i hpop
      have hsame := popBucketLoop_none hpop
      subst hsame
      exact ih hs h

/-! ## Freeing an extent -/

/-- What `freePage` does with an extent of `n` pages: the pages join the free
pages, and the page count grows by `n`. -/
structure Freed (s : PageManagerCore) (p n : Nat) (s' : PageManagerCore) : Prop where
  free : s'.heapPages = s.heapPages + pages p n
  blocks : s'.BlocksOk
  available : s'.ivAvailable = add64 s.ivAvailable n
  ranges : SameRanges s s'

theorem add64_add64 (a b c : Nat) : add64 (add64 a b) c = add64 a (b + c) := by
  unfold add64
  rw [Nat.mod_add_mod, Nat.add_assoc]

theorem freed_block (hs : s.BlocksOk) {k : Nat} (hk : k < BUCKETS) (hp : ExtentOk p (2 ^ k)) :
    Freed s p (2 ^ k)
      { s.pushBucket p k with ivAvailable := add64 (s.pushBucket p k).ivAvailable (2 ^ k) } := by
  rw [pushBucket_of_lt _ _ hk]
  exact ⟨heapPages_pushHeap s hk hp, blocksOk_pushHeap hs hp, rfl, rfl, rfl⟩

theorem Freed.append {m : Nat} (h : Freed s p m s') (h' : Freed s' (p + m * PAGESIZE) n s'') :
    Freed s p (m + n) s'' where
  free := by rw [h'.free, h.free, pages_add]; abel
  blocks := h'.blocks
  available := by rw [h'.available, h.available, add64_add64]
  ranges := h.ranges.trans h'.ranges

/-- The same with the upper extent freed first, as `freePage` does for the
tail of an allocation. -/
theorem Freed.prepend {m : Nat} (h : Freed s (p + m * PAGESIZE) n s') (h' : Freed s' p m s'') :
    Freed s p (m + n) s'' where
  free := by rw [h'.free, h.free, pages_add]; abel
  blocks := h'.blocks
  available := by rw [h'.available, h.available, add64_add64, Nat.add_comm n]
  ranges := h.ranges.trans h'.ranges

/-- `freePage` of a proper extent below `2 ^ BUCKETS` pages.  The recursion
takes the largest power of two off the count, at the lower end, or at the
upper end for the tail of an allocation. -/
theorem freePageLoop_freed (tail : Bool) (hs : s.BlocksOk) (hfuel : n ≤ fuel) (hn : 0 < n)
    (hlt : n < 2 ^ BUCKETS) (hp : ExtentOk p n) :
    Freed s p n (freePageLoop tail fuel s p n) := by
  induction fuel generalizing s p n with
  | zero => omega
  | succ fuel ih =>
    have hlog : 2 ^ Nat.log2 n ≤ n := Nat.log2_self_le (by omega)
    have hk : Nat.log2 n < BUCKETS := (Nat.log2_lt (by omega)).mpr hlt
    have hpow : 0 < 2 ^ Nat.log2 n := Nat.two_pow_pos _
    have hpos := hp.pos
    rw [freePageLoop, if_neg (by omega)]
    obtain ⟨r, hr⟩ : ∃ r, n = 2 ^ Nat.log2 n + r := ⟨n - 2 ^ Nat.log2 n, by omega⟩
    generalize Nat.log2 n = k at hr hk hpow ⊢
    subst hr
    have hsub : 2 ^ k + r - 2 ^ k = r := by omega
    simp only [hsub]
    cases tail with
    | false =>
      have hblock := freed_block hs hk hp.left
      split
      · simp only [Bool.false_eq_true, if_false, Nat.add_zero] at *
        exact hblock.append (ih hblock.blocks (by omega) (by omega) (by omega) hp.right)
      · have hr0 : r = 0 := by omega
        subst hr0
        exact hblock
    | true =>
      have hp' : ExtentOk p (r + 2 ^ k) := by rwa [Nat.add_comm]
      have hblock := freed_block hs hk hp'.right
      rw [Nat.add_comm (2 ^ k) r]
      split
      · simp only [if_true, Nat.add_zero] at *
        exact hblock.prepend (ih hblock.blocks (by omega) (by omega) (by omega) hp'.left)
      · have hr0 : r = 0 := by omega
        subst hr0
        simpa using hblock

theorem freePage_freed (tail : Bool) (hs : s.BlocksOk) (hn : 0 < n) (hlt : n < 2 ^ BUCKETS)
    (hp : ExtentOk p n) :
    Freed s p n (s.freePage p n tail) :=
  freePageLoop_freed tail hs le_rfl hn hlt hp

/-! ## Allocating an extent -/

theorem le_two_pow_bucketFor : n ≤ 2 ^ bucketFor n := by
  unfold bucketFor
  split
  · exact Nat.le_of_lt Nat.lt_log2_self
  · rename_i h
    omega

theorem allocatePage_none (h : s.allocatePage n = (none, s')) : s' = s := by
  unfold allocatePage at h
  dsimp only at h
  split at h
  · rename_i hpop
    simp only [Prod.mk.injEq, true_and] at h
    rw [← h]
    exact popRetry_none hpop
  · split at h <;> simp at h

/-- What a successful `allocatePage` guarantees. -/
structure Allocated (s : PageManagerCore) (n p : Nat) (s' : PageManagerCore) : Prop where
  le : n ≤ 2 ^ (BUCKETS - 1)
  extent : ExtentOk p n
  free : s'.heapPages + pages p n = s.heapPages
  blocks : s'.BlocksOk
  available : s'.ivAvailable = sub64 s.ivAvailable n
  ranges : SameRanges s s'

theorem add64_sub64_split {a b : Nat} (hn : n ≤ b) (hb : b ≤ a) (ha : a < 2 ^ 64) :
    add64 (sub64 a b) (b - n) = sub64 a n := by
  rw [sub64_of_le hb ha, sub64_of_le (by omega) ha, add64_of_lt (by omega)]
  omega

/-- `allocatePage` of at least one page, in a state whose page count is the
number of free pages. -/
theorem allocatePage_some (hs : s.BlocksOk) (hn : 0 < n)
    (havail : Multiset.card s.heapPages ≤ s.ivAvailable) (hlt : s.ivAvailable < 2 ^ 64)
    (h : s.allocatePage n = (some p, s')) : Allocated s n p s' := by
  unfold allocatePage at h
  dsimp only at h
  split at h
  · simp at h
  · rename_i q s1 hpop
    have hp := popRetry_some hs hpop
    have hle : n ≤ 2 ^ bucketFor n := le_two_pow_bucketFor
    have hk := hp.lt
    have hcard : 2 ^ bucketFor n ≤ s.ivAvailable := by
      refine le_trans ?_ havail
      rw [← hp.free, Multiset.card_add, card_pages]
      omega
    generalize bucketFor n = k at hp hle hk hcard h
    have hbucket : 2 ^ k ≤ 2 ^ (BUCKETS - 1) :=
      Nat.pow_le_pow_right (by decide) (by omega)
    have hsmall : 2 ^ (BUCKETS - 1) < 2 ^ BUCKETS := by decide
    obtain ⟨r, hr⟩ : ∃ r, 2 ^ k = n + r := ⟨2 ^ k - n, by omega⟩
    have hext : ExtentOk q (n + r) := hr ▸ hp.extent
    have hfree : s1.heapPages + pages q (n + r) = s.heapPages := hr ▸ hp.free
    split at h
    · simp only [Prod.mk.injEq, Option.some.injEq] at h
      obtain ⟨rfl, rfl⟩ := h
      rw [show 2 ^ k - n = r by omega]
      have hblocks : BlocksOk { s1 with ivAvailable := sub64 s1.ivAvailable (2 ^ k) } := hp.blocks
      have hfreed := freePage_freed true hblocks (by omega) (by omega) hext.right
      refine ⟨by omega, hext.left, ?_, hfreed.blocks, ?_, hp.ranges.trans hfreed.ranges⟩
      · rw [hfreed.free, heapPages_setAvailable, ← hfree, pages_add]
        abel
      · rw [hfreed.available]
        simp only [hp.available]
        rw [show r = 2 ^ k - n by omega]
        exact add64_sub64_split hle hcard hlt
    · simp only [Prod.mk.injEq, Option.some.injEq] at h
      obtain ⟨rfl, rfl⟩ := h
      have hr0 : r = 0 := by omega
      subst hr0
      refine ⟨by omega, hext, hfree, hp.blocks, ?_, hp.ranges⟩
      simp only [hp.available, hr, Nat.add_zero]

/-! ## Adding a range -/

theorem fitBucket_le (length k : Nat) : fitBucket length k ≤ k := by
  induction k with
  | zero => exact le_rfl
  | succ k ih =>
    rw [fitBucket]
    split
    · omega
    · exact le_rfl

theorem two_pow_fitBucket_le {length : Nat} (h : 0 < length) (k : Nat) :
    2 ^ fitBucket length k ≤ length := by
  induction k with
  | zero =>
    rw [fitBucket, Nat.pow_zero]
    exact h
  | succ k ih =>
    rw [fitBucket]
    split
    · exact ih
    · omega

theorem addMemoryLoop_free (hs : s.BlocksOk) (page : Nat) {length pageLength : Nat}
    (hfuel : length ≤ fuel) (hlen : pageLength < BUCKETS) (hp : 0 < length → ExtentOk page length) :
    (addMemoryLoop fuel s page length pageLength).heapPages
        = s.heapPages + pages page length ∧
      (addMemoryLoop fuel s page length pageLength).BlocksOk ∧
      (addMemoryLoop fuel s page length pageLength).ivAvailable = s.ivAvailable ∧
      SameRanges s (addMemoryLoop fuel s page length pageLength) := by
  induction fuel generalizing s page length pageLength with
  | zero =>
    have hzero : length = 0 := by omega
    subst hzero
    simp [addMemoryLoop, hs, SameRanges]
  | succ fuel ih =>
    rw [addMemoryLoop]
    split
    · rename_i hpos
      have hfit : fitBucket length pageLength < BUCKETS :=
        lt_of_le_of_lt (fitBucket_le _ _) hlen
      have hle : 2 ^ fitBucket length pageLength ≤ length := two_pow_fitBucket_le hpos _
      have hpow : 0 < 2 ^ fitBucket length pageLength := Nat.two_pow_pos _
      dsimp only
      generalize fitBucket length pageLength = k at hfit hle hpow ⊢
      obtain ⟨r, rfl⟩ : ∃ r, length = 2 ^ k + r := ⟨length - 2 ^ k, by omega⟩
      rw [show 2 ^ k + r - 2 ^ k = r by omega]
      have hext := hp hpos
      have hih := ih (blocksOk_pushHeap hs hext.left) (page + 2 ^ k * PAGESIZE)
        (by omega) hfit (fun _ => hext.right)
      refine ⟨?_, hih.2.1, hih.2.2.1, hih.2.2.2⟩
      rw [hih.1, heapPages_pushHeap s hfit hext.left, pages_add]
      abel
    · have hzero : length = 0 := by omega
      subst hzero
      simp [hs, SameRanges]

/-- A registered range list holds the new range and every earlier range that
was in use. -/
theorem mem_registerRange {ranges' : List (Nat × Nat)}
    (h : registerRange addr n ranges = some ranges') (hfree : (ranges.getLast?.getD (0, 0)).1 = 0)
    (hne : ranges ≠ []) :
    (addr, n * PAGESIZE) ∈ ranges' ∧ ∀ r ∈ ranges, r.1 ≠ 0 → r ∈ ranges' := by
  induction ranges generalizing ranges' with
  | nil => exact absurd rfl hne
  | cons range rest ih =>
    rw [registerRange] at h
    split at h
    · rename_i hzero
      simp only [Option.some.injEq] at h
      subst h
      refine ⟨by simp, ?_⟩
      intro r hr hr0
      rcases mem_cons.mp hr with rfl | hr
      · exact absurd hzero hr0
      · exact mem_cons_of_mem _ hr
    · rename_i hzero
      split at h
      · cases hrec : registerRange addr n rest with
        | none => simp [hrec] at h
        | some ranges'' =>
          simp only [hrec, Option.map_some, Option.some.injEq] at h
          subst h
          have hrest : rest ≠ [] := by
            rintro rfl
            simp at hfree
            exact hzero hfree
          have hfree' : (rest.getLast?.getD (0, 0)).1 = 0 := by
            obtain ⟨x, xs, rfl⟩ := exists_cons_of_ne_nil hrest
            simpa [getLast?_cons_cons] using hfree
          obtain ⟨hnew, hold⟩ := ih hrec hfree' hrest
          refine ⟨mem_cons_of_mem _ hnew, ?_⟩
          intro r hr hr0
          rcases mem_cons.mp hr with rfl | hr
          · exact mem_cons_self
          · exact mem_cons_of_mem _ (hold r hr hr0)
      · simp at h

theorem registerRange_length {ranges' : List (Nat × Nat)}
    (h : registerRange addr n ranges = some ranges') : ranges'.length = ranges.length := by
  induction ranges generalizing ranges' with
  | nil =>
    simp only [registerRange, Option.some.injEq] at h
    subst h
    rfl
  | cons range rest ih =>
    rw [registerRange] at h
    split at h
    · simp only [Option.some.injEq] at h
      subst h
      rfl
    · split at h
      · cases hrec : registerRange addr n rest with
        | none => simp [hrec] at h
        | some ranges'' =>
          simp only [hrec, Option.map_some, Option.some.injEq] at h
          subst h
          simp [ih hrec]
      · simp at h

/-- What a successful `addMemory` guarantees. -/
structure Added (s : PageManagerCore) (addr n : Nat) (s' : PageManagerCore) : Prop where
  free : s'.heapPages = s.heapPages + pages addr n
  blocks : s'.BlocksOk
  available : s'.ivAvailable = add64 s.ivAvailable n
  supports : s'.ivSupportsCoalesce = s.ivSupportsCoalesce
  ranges_length : s'.ivRanges.length = s.ivRanges.length
  registered : s.ivSupportsCoalesce = true →
    (addr, n * PAGESIZE) ∈ s'.ivRanges ∧ ∀ r ∈ s.ivRanges, r.1 ≠ 0 → r ∈ s'.ivRanges

theorem addMemory_added (hs : s.BlocksOk) (hp : ExtentOk addr n) (hranges : s.ivRanges ≠ [])
    (h : s.addMemory addr n = some s') : Added s addr n s' := by
  unfold addMemory at h
  rw [alignPage_of_aligned hp.aligned] at h
  have hlen : BUCKETS - 1 < BUCKETS := by decide
  obtain ⟨hfree, hblocks, havail, hsame, hsupp⟩ :=
    addMemoryLoop_free hs addr (le_refl n) hlen (fun _ => hp)
  generalize addMemoryLoop n s addr n (BUCKETS - 1) = s1 at h hfree hblocks havail hsame hsupp
  dsimp only at h
  split at h
  · rename_i hco
    split at h
    · simp at h
    · rename_i hlast
      cases hreg : registerRange addr n s1.ivRanges with
      | none => simp [hreg] at h
      | some ranges =>
        simp only [hreg, Option.map_some, Option.some.injEq] at h
        subst h
        rw [hsame] at hlast hreg
        have hmem := mem_registerRange hreg (by simpa using hlast) hranges
        exact ⟨hfree, hblocks, by simp only [havail], hsupp, registerRange_length hreg,
          fun _ => hmem⟩
  · rename_i hco
    simp only [Option.some.injEq] at h
    subst h
    refine ⟨hfree, hblocks, by simp only [havail], hsupp, by simp only [hsame], ?_⟩
    intro hsupports
    rw [hsupp] at hco
    exact absurd hsupports hco

/-! ## Coalescing -/

theorem drain_perm {stack : List Nat} (pq : List Nat) (hne : ∀ p ∈ stack, p ≠ 0) :
    (drain stack pq).1 = [] ∧ (drain stack pq).2.Perm (stack ++ pq) := by
  induction stack generalizing pq with
  | nil => exact ⟨rfl, List.Perm.refl _⟩
  | cons p rest ih =>
    rw [drain, if_neg (hne p (by simp))]
    obtain ⟨hnil, hperm⟩ := ih (PQueue.insert pq p) (fun q hq => hne q (by simp [hq]))
    refine ⟨hnil, hperm.trans ?_⟩
    exact ((PQueue.insert_perm pq p).append_left rest).trans perm_middle

/-- Every free page lies in a registered range. -/
def Covered (ranges : List (Nat × Nat)) (free : Multiset Nat) : Prop :=
  ∀ x ∈ free, ∃ r ∈ ranges, r.1 ≤ x * PAGESIZE ∧ x * PAGESIZE < r.1 + r.2

theorem findRange_of_covered (hp : ExtentOk p n) (hn : 0 < n) (hcov : Covered ranges (pages p n)) :
    ∃ r, findRange ranges p = some r := by
  have hmem : p / PAGESIZE ∈ pages p n := mem_pages.2 ⟨le_rfl, by omega⟩
  have hp' : p / PAGESIZE * PAGESIZE = p := by
    have := hp.aligned
    unfold PAGESIZE at *
    omega
  obtain ⟨r, hr, hlo, hhi⟩ := hcov _ hmem
  rw [hp'] at hlo hhi
  refine Option.isSome_iff_exists.mp ?_
  rw [findRange, find?_isSome]
  exact ⟨r, hr, by simp [hlo, hhi]⟩

/-- `s'` has the same free pages as `s`, in other blocks. -/
structure Regrouped (s : PageManagerCore) (extra : Multiset Nat) (s' : PageManagerCore) :
    Prop where
  free : s'.heapPages = s.heapPages + extra
  blocks : s'.BlocksOk
  available : s'.ivAvailable = s.ivAvailable
  ranges : SameRanges s s'

/-- The blocks of one size, as pages. -/
abbrev blockPages (bucket : Nat) (l : List Nat) : Multiset Nat :=
  Buckets.listContent (fun k p => pages p (2 ^ k)) bucket l

theorem blockPages_concat (bucket : Nat) (l : List Nat) (p : Nat) :
    blockPages bucket (l ++ [p]) = blockPages bucket l + pages p (2 ^ bucket) := by
  simp [blockPages]

theorem Regrouped.pushHeap {extra : Multiset Nat} (hn : n < BUCKETS) (hp : ExtentOk p (2 ^ n))
    (h : Regrouped (s.pushHeap p n) extra s') :
    Regrouped s (extra + pages p (2 ^ n)) s' where
  free := by rw [h.free, heapPages_pushHeap s hn hp]; abel
  blocks := h.blocks
  available := h.available
  ranges := (pushHeap_sameRanges s p n).trans h.ranges

/-- The merge loop never meets a block outside the registered ranges, and it
puts every block of the queue back: alone, or joined with its neighbour into
a block of twice the size. -/
theorem mergeLoop_regrouped {bucket : Nat} (hb : bucket + 1 < BUCKETS) (hs : s.BlocksOk)
    {pq : List Nat} (hfuel : pq.length ≤ fuel) (hpq : ∀ p ∈ pq, ExtentOk p (2 ^ bucket))
    (hcov : Covered s.ivRanges (blockPages bucket pq)) :
    ∃ s', mergeLoop bucket fuel s pq = some s' ∧ Regrouped s (blockPages bucket pq) s' := by
  induction fuel generalizing s pq with
  | zero =>
    have hnil : pq = [] := length_eq_zero_iff.mp (by omega)
    subst hnil
    exact ⟨s, rfl, by simp [blockPages], hs, rfl, rfl, rfl⟩
  | succ fuel ih =>
    rw [mergeLoop]
    cases hrem : Queue.remove pq with
    | none =>
      have hnil := Queue.remove_eq_none hrem
      subst hnil
      exact ⟨s, rfl, by simp [blockPages], hs, rfl, rfl, rfl⟩
    | some popped =>
      obtain ⟨p, rest⟩ := popped
      have hpq' := Queue.remove_eq_some hrem
      subst hpq'
      have hp : ExtentOk p (2 ^ bucket) := hpq p (by simp)
      have hrest : ∀ q ∈ rest, ExtentOk q (2 ^ bucket) := fun q hq => hpq q (by simp [hq])
      rw [blockPages_concat] at hcov ⊢
      have hcovRest : Covered s.ivRanges (blockPages bucket rest) :=
        fun x hx => hcov x (by simp [hx])
      obtain ⟨range, hrange⟩ := findRange_of_covered hp (Nat.two_pow_pos _)
        (fun x hx => hcov x (by simp [hx]))
      simp only [length_append, length_singleton] at hfuel
      -- The block goes back to its own list.
      have hback : ∀ pq', pq'.length ≤ fuel → (∀ q ∈ pq', ExtentOk q (2 ^ bucket)) →
          Covered s.ivRanges (blockPages bucket pq') →
          ∃ s', mergeLoop bucket fuel (s.pushHeap p bucket) pq' = some s' ∧
            Regrouped s (blockPages bucket pq' + pages p (2 ^ bucket)) s' := by
        intro pq' hlen hok hc
        obtain ⟨s', hs', hre⟩ := ih (blocksOk_pushHeap hs hp) hlen hok hc
        exact ⟨s', hs', hre.pushHeap (by omega) hp⟩
      simp only [hrange]
      split
      · exact hback rest (by omega) hrest hcovRest
      · rcases PQueue.removeIf_cases rest (p + 2 ^ bucket * PAGESIZE) with
          ⟨q, hif, hconcat, _⟩ | hif
        · have hq : ExtentOk q (2 ^ bucket) := hrest q (by rw [hconcat]; simp)
          have hrest' : ∀ x ∈ rest.dropLast, ExtentOk x (2 ^ bucket) :=
            fun x hx => hrest x (dropLast_subset _ hx)
          have hlen : rest.dropLast.length ≤ fuel := by
            rw [length_dropLast]
            omega
          have hsum : blockPages bucket rest
              = blockPages bucket rest.dropLast + pages q (2 ^ bucket) := by
            rw [← blockPages_concat, ← hconcat]
          have hcov' : Covered s.ivRanges (blockPages bucket rest.dropLast) :=
            fun x hx => hcovRest x (by rw [hsum]; simp [hx])
          simp only [hif]
          split
          · rename_i hseek
            subst hseek
            have hjoin : ExtentOk p (2 ^ (bucket + 1)) := by
              rw [Nat.pow_succ, Nat.mul_two]
              exact hp.join hq
            rw [pushBucket_of_lt _ _ hb]
            obtain ⟨s', hs', hre⟩ := ih (blocksOk_pushHeap hs hjoin) hlen hrest' hcov'
            have hre' := hre.pushHeap hb hjoin
            rw [pages_pow_succ] at hre'
            refine ⟨s', hs', ?_⟩
            rw [hsum, add_assoc, add_comm (pages (p + _) _)]
            exact hre'
          · have hblocks := blocksOk_pushHeap (blocksOk_pushHeap hs hp) hq
            obtain ⟨s', hs', hre⟩ := ih hblocks hlen hrest' hcov'
            have hre' := (hre.pushHeap (by omega) hq).pushHeap (by omega) hp
            refine ⟨s', hs', ?_⟩
            rw [hsum]
            exact hre'
        · simp only [hif]
          exact hback rest (by omega) hrest hcovRest

theorem pages_subset_heapPages (s : PageManagerCore) {k : Nat} (hk : k < BUCKETS)
    (hp : p ∈ s.ivHeap k) : ∀ x ∈ pages p (2 ^ k), x ∈ s.heapPages :=
  fun _ hx => Buckets.mem_content hk hp hx

theorem coalesceBucket_regrouped (hs : s.BlocksOk) {bucket : Nat} (hb : bucket + 1 < BUCKETS)
    (hcov : Covered s.ivRanges s.heapPages) :
    ∃ s', s.coalesceBucket bucket = some s' ∧ Regrouped s 0 s' := by
  have hne : ∀ p ∈ s.ivHeap bucket, p ≠ 0 := fun p hp => (hs bucket p hp).pos.ne'
  obtain ⟨hnil, hperm⟩ := drain_perm [] hne
  rw [append_nil] at hperm
  have hsum : blockPages bucket (drain (s.ivHeap bucket) []).2
      = blockPages bucket (s.ivHeap bucket) := Buckets.listContent_perm _ _ hperm
  have hupdate := Buckets.content_update BUCKETS (fun k p => pages p (2 ^ k)) s.ivHeap
    (k := bucket) (by omega) []
  have hblocks : BlocksOk { s with ivHeap := Function.update s.ivHeap bucket [] } := by
    intro k q hq
    by_cases hk : k = bucket
    · subst hk
      simp at hq
    · simp only [Function.update_of_ne hk] at hq
      exact hs k q hq
  simp only [coalesceBucket, hnil]
  obtain ⟨s', hs', hre⟩ := mergeLoop_regrouped hb hblocks le_rfl
    (fun p hp => hs bucket p (hperm.mem_iff.mp hp))
    (by
      intro x hx
      rw [hsum] at hx
      obtain ⟨p, hp, hxp⟩ := Buckets.mem_listContent hx
      exact hcov x (pages_subset_heapPages s (by omega) hp x hxp))
  refine ⟨s', hs', ?_, hre.blocks, hre.available, hre.ranges⟩
  rw [hre.free, hsum, add_zero]
  simpa [heapPages] using hupdate

theorem Regrouped.trans (h : Regrouped s 0 s') (h' : Regrouped s' 0 s'') : Regrouped s 0 s'' where
  free := by rw [h'.free, add_zero, h.free]
  blocks := h'.blocks
  available := h'.available.trans h.available
  ranges := h.ranges.trans h'.ranges

theorem foldlM_coalesceBucket {buckets : List Nat} (hb : ∀ b ∈ buckets, b + 1 < BUCKETS)
    (hs : s.BlocksOk) (hcov : Covered s.ivRanges s.heapPages) :
    ∃ s', buckets.foldlM coalesceBucket s = some s' ∧ Regrouped s 0 s' := by
  induction buckets generalizing s with
  | nil => exact ⟨s, rfl, by simp, hs, rfl, rfl, rfl⟩
  | cons bucket rest ih =>
    obtain ⟨s1, hs1, hre⟩ := coalesceBucket_regrouped hs (hb bucket (by simp)) hcov
    have hcov1 : Covered s1.ivRanges s1.heapPages := by
      rw [hre.free, add_zero, hre.ranges.1]
      exact hcov
    obtain ⟨s', hs', hre'⟩ := ih (fun b hb' => hb b (by simp [hb'])) hre.blocks hcov1
    exact ⟨s', by simp [foldlM_cons, hs1, hs'], hre.trans hre'⟩

theorem coalesce_regrouped (hs : s.BlocksOk)
    (hcov : s.ivSupportsCoalesce = true → Covered s.ivRanges s.heapPages) :
    ∃ s', s.coalesce = some s' ∧ Regrouped s 0 s' := by
  unfold coalesce
  split
  · rename_i hco
    refine foldlM_coalesceBucket ?_ hs (hcov hco)
    intro b hb
    have := mem_range.mp hb
    omega
  · exact ⟨s, rfl, by simp, hs, rfl, rfl, rfl⟩

end PageManagerCore

end Hostboot.PageMgr
