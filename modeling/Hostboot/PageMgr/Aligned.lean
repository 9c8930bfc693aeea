import Mathlib
import Hostboot.PageMgr.Partition

/-!
# Blocks at a multiple of their size

The blocks of a `PageManagerCore` obey a law that the code never checks: a
block of `2 ^ k` pages starts at an offset from the start of its range that is
a multiple of its size.

`PlacedIn` says this of one block and `Aligned` of a core.  There is one lemma
for each call: `addMemory` cuts a range into blocks that do not grow,
`pop_bucket` splits a block into halves, `allocatePage` returns the tail of a
block from its upper end, and `freePage` cuts an extent from its lower end.

Offsets are counted in pages.
-/

namespace Hostboot.PageMgr

open Hostboot.Lib Hostboot.Util

/-! ## Blocks at a multiple of their size -/

/-- The block of `2 ^ k` pages at `p` lies in the range `e`, at a multiple of
its size. -/
def PlacedIn (e : Nat × Nat) (k p : Nat) : Prop :=
  ∃ o, p = e.1 + o * PAGESIZE ∧ 2 ^ k ∣ o ∧ o + 2 ^ k ≤ e.2

/-- Every free block lies so in one of the added ranges. -/
def Aligned (added : List (Nat × Nat)) (s : PageManagerCore) : Prop :=
  ∀ k, ∀ p ∈ s.ivHeap k, ∃ e ∈ added, PlacedIn e k p

/-- An extent of `n` pages from the offset `o`, of which one end is a multiple
of the largest power of two in `n`: the upper end for the tail of an
allocation, and the lower end otherwise. -/
def EvenEnd (tail : Bool) (o n : Nat) : Prop :=
  2 ^ Nat.log2 n ∣ if tail then o + n else o

theorem PlacedIn.halves {e : Nat × Nat} {k p : Nat} (h : PlacedIn e (k + 1) p) :
    PlacedIn e k p ∧ PlacedIn e k (p + 2 ^ k * PAGESIZE) := by
  obtain ⟨o, hp, hdvd, hle⟩ := h
  have hpow : 2 ^ (k + 1) = 2 ^ k + 2 ^ k := by rw [Nat.pow_succ, Nat.mul_two]
  have hhalf : 2 ^ k ∣ o := (Nat.pow_dvd_pow 2 (Nat.le_succ k)).trans hdvd
  refine ⟨⟨o, hp, hhalf, by omega⟩, o + 2 ^ k, ?_, hhalf.add (dvd_refl _), by omega⟩
  rw [hp, Nat.add_mul, Nat.add_assoc]

theorem PlacedIn.lt {e : Nat × Nat} {k p : Nat} (h : PlacedIn e k p) (he : ExtentOk e.1 e.2) :
    p < 2 ^ 32 := by
  obtain ⟨o, hp, -, hle⟩ := h
  have hend := he.le
  have hpow := Nat.two_pow_pos k
  have hmul : (o + 1) * PAGESIZE ≤ e.2 * PAGESIZE := Nat.mul_le_mul_right _ (by omega)
  unfold PAGESIZE at *
  omega

section Calls

variable {added : List (Nat × Nat)} (hadded : ∀ e ∈ added, ExtentOk e.1 e.2)
  {s s' : PageManagerCore} {k n p : Nat} {e : Nat × Nat}

theorem Aligned.mono {r : Nat × Nat} (h : Aligned added s) : Aligned (r :: added) s := by
  intro k p hp
  obtain ⟨e, he, hplaced⟩ := h k p hp
  exact ⟨e, List.mem_cons_of_mem _ he, hplaced⟩

include hadded in
theorem Aligned.pushHeap (h : Aligned added s) (he : e ∈ added) (hp : PlacedIn e n p) :
    Aligned added (s.pushHeap p n) := by
  intro k q hq
  by_cases hk : k = n
  · subst hk
    rw [PageManagerCore.pushHeap, Stack.push, getPtr_of_lt (hp.lt (hadded e he))] at hq
    simp only [Function.update_self, List.mem_cons] at hq
    rcases hq with heq | hq
    · exact ⟨e, he, heq ▸ hp⟩
    · exact h k q hq
  · simp only [PageManagerCore.pushHeap, Function.update_of_ne hk] at hq
    exact h k q hq

include hadded in
theorem Aligned.pushBucket (h : Aligned added s) (he : e ∈ added) (hp : PlacedIn e n p) :
    Aligned added (s.pushBucket p n) := by
  rw [PageManagerCore.pushBucket]
  split
  · exact h
  · exact h.pushHeap hadded he hp

theorem Aligned.shrink {l : List Nat} (h : Aligned added s) (hl : ∀ q ∈ l, q ∈ s.ivHeap n) :
    Aligned added { s with ivHeap := Function.update s.ivHeap n l } := by
  intro k q hq
  by_cases hk : k = n
  · subst hk
    simp only [Function.update_self] at hq
    exact h k q (hl q hq)
  · simp only [Function.update_of_ne hk] at hq
    exact h k q hq

/-! ### Popping a block -/

include hadded in
/-- The block that `pop_bucket` answers is placed, and so are the upper halves
that it pushes. -/
theorem Aligned.popBucketLoop {fuel : Nat} (h : Aligned added s)
    (hpop : PageManagerCore.popBucketLoop fuel s n = (some p, s')) :
    (∃ e ∈ added, PlacedIn e n p) ∧ Aligned added s' := by
  induction fuel generalizing s' n p with
  | zero => simp [PageManagerCore.popBucketLoop] at hpop
  | succ fuel ih =>
    simp only [PageManagerCore.popBucketLoop] at hpop
    split at hpop
    · simp at hpop
    · split at hpop
      · rename_i q rest hstack
        obtain ⟨hlist, -⟩ := Stack.pop_eq_some hstack
        simp only [Prod.mk.injEq, Option.some.injEq] at hpop
        obtain ⟨rfl, rfl⟩ := hpop
        refine ⟨h n q (by simp [hlist]), h.shrink fun x hx => ?_⟩
        rw [hlist]
        exact List.mem_cons_of_mem _ hx
      · split at hpop
        · simp at hpop
        · rename_i q s1 hrec
          simp only [Prod.mk.injEq, Option.some.injEq] at hpop
          obtain ⟨rfl, rfl⟩ := hpop
          obtain ⟨⟨e, he, hplaced⟩, haligned⟩ := ih hrec
          have hhalves := hplaced.halves
          rw [Nat.mul_comm] at hhalves
          exact ⟨⟨e, he, hhalves.1⟩, haligned.pushBucket hadded he hhalves.2⟩

include hadded in
theorem Aligned.popRetry {retries : Nat} (h : Aligned added s)
    (hpop : PageManagerCore.popRetry retries s n = (some p, s')) :
    (∃ e ∈ added, PlacedIn e n p) ∧ Aligned added s' := by
  induction retries generalizing s with
  | zero => simp [PageManagerCore.popRetry] at hpop
  | succ retries ih =>
    simp only [PageManagerCore.popRetry] at hpop
    split at hpop
    · rename_i hloop
      simp only [Prod.mk.injEq, Option.some.injEq] at hpop
      obtain ⟨rfl, rfl⟩ := hpop
      exact h.popBucketLoop hadded hloop
    · rename_i hloop
      have hsame := PageManagerCore.popBucketLoop_none hloop
      subst hsame
      exact ih h hpop

/-! ### Freeing an extent -/

/-- What is left of an extent after its largest block keeps an even end. -/
theorem EvenEnd.rest {tail : Bool} {o n : Nat} (h : EvenEnd tail o n)
    (hrest : n - 2 ^ Nat.log2 n ≠ 0) :
    EvenEnd tail (o + if tail then 0 else 2 ^ Nat.log2 n) (n - 2 ^ Nat.log2 n) := by
  have hne : n ≠ 0 := fun hzero => hrest (by rw [hzero, Nat.zero_sub])
  have hle : 2 ^ Nat.log2 n ≤ n := Nat.log2_self_le hne
  have hlt : n < 2 ^ (Nat.log2 n + 1) := Nat.lt_log2_self
  have hlog : Nat.log2 (n - 2 ^ Nat.log2 n) ≤ Nat.log2 n := by
    refine Nat.le_of_lt ((Nat.log2_lt hrest).mpr ?_)
    rw [Nat.pow_succ] at hlt
    omega
  have hpow : 2 ^ Nat.log2 (n - 2 ^ Nat.log2 n) ∣ 2 ^ Nat.log2 n := Nat.pow_dvd_pow 2 hlog
  unfold EvenEnd at *
  cases tail with
  | false =>
    simp only [Bool.false_eq_true, if_false] at *
    exact (hpow.trans h).add hpow
  | true =>
    simp only [if_true] at *
    have hsum : o + 0 + (n - 2 ^ Nat.log2 n) = o + n - 2 ^ Nat.log2 n := by omega
    rw [hsum]
    exact Nat.dvd_sub (hpow.trans h) hpow

include hadded in
theorem Aligned.freePageLoop (tail : Bool) {fuel o : Nat} (h : Aligned added s) (he : e ∈ added)
    (hp : p = e.1 + o * PAGESIZE) (hend : EvenEnd tail o n) (hle : o + n ≤ e.2) :
    Aligned added (PageManagerCore.freePageLoop tail fuel s p n) := by
  induction fuel generalizing s p n o with
  | zero => exact h
  | succ fuel ih =>
    rw [PageManagerCore.freePageLoop]
    split
    · exact h
    · rename_i hne
      have hpow : 2 ^ Nat.log2 n ≤ n := Nat.log2_self_le (by omega)
      have hblock : PlacedIn e (Nat.log2 n)
          (p + if tail then (n - 2 ^ Nat.log2 n) * PAGESIZE else 0) := by
        unfold EvenEnd at hend
        cases tail with
        | false =>
          simp only [Bool.false_eq_true, if_false] at *
          exact ⟨o, by omega, hend, by omega⟩
        | true =>
          simp only [if_true] at *
          refine ⟨o + (n - 2 ^ Nat.log2 n), ?_, ?_, by omega⟩
          · rw [hp, Nat.add_mul, Nat.add_assoc]
          · rw [← Nat.add_sub_assoc hpow]
            exact Nat.dvd_sub hend (dvd_refl _)
      have hpushed : Aligned added
          { s.pushBucket (p + if tail then (n - 2 ^ Nat.log2 n) * PAGESIZE else 0) (Nat.log2 n) with
            ivAvailable := add64 s.ivAvailable (2 ^ Nat.log2 n) } :=
        h.pushBucket hadded he hblock
      have havail : ∀ q k, (s.pushBucket q k).ivAvailable = s.ivAvailable := by
        intro q k
        rw [PageManagerCore.pushBucket]
        split <;> rfl
      simp only [havail]
      split
      · rename_i hrest
        refine ih (o := o + if tail then 0 else 2 ^ Nat.log2 n) hpushed ?_
          (hend.rest fun hzero => hrest (by omega)) ?_
        · rw [hp]
          cases tail with
          | false => simp only [Bool.false_eq_true, if_false, Nat.add_mul, Nat.add_assoc]
          | true => simp only [if_true, Nat.add_zero]
        · cases tail with
          | false => simp only [Bool.false_eq_true, if_false]; omega
          | true =>
            have hrestLe := Nat.sub_le n (2 ^ Nat.log2 n)
            simp only [if_true]
            omega
      · exact hpushed

/-- An allocated extent, as `allocatePage` places it: at a multiple of the size
of its block. -/
def ExtentIn (e : Nat × Nat) (x : Nat × Nat) : Prop :=
  ∃ o, x.1 = e.1 + o * PAGESIZE ∧ 2 ^ PageManagerCore.bucketFor x.2 ∣ o ∧ o + x.2 ≤ e.2

theorem log2_le_bucketFor (n : Nat) : Nat.log2 n ≤ PageManagerCore.bucketFor n := by
  unfold PageManagerCore.bucketFor
  split <;> omega

include hadded in
theorem Aligned.freePage (h : Aligned added s) (he : e ∈ added) (hx : ExtentIn e (p, n)) :
    Aligned added (s.freePage p n false) := by
  obtain ⟨o, hp, hdvd, hle⟩ := hx
  have hpow : 2 ^ Nat.log2 n ∣ 2 ^ PageManagerCore.bucketFor n :=
    Nat.pow_dvd_pow 2 (log2_le_bucketFor n)
  exact h.freePageLoop hadded false he hp (hpow.trans hdvd) hle

/-! ### Allocating an extent -/

include hadded in
/-- The extent that `allocatePage` answers is placed, and the tail of its block
goes back as placed blocks. -/
theorem Aligned.allocatePage (h : Aligned added s) (hn : 0 < n)
    (halloc : s.allocatePage n = (some p, s')) :
    (∃ e ∈ added, ExtentIn e (p, n)) ∧ Aligned added s' := by
  have hfits : n ≤ 2 ^ PageManagerCore.bucketFor n := PageManagerCore.le_two_pow_bucketFor
  unfold PageManagerCore.allocatePage at halloc
  dsimp only at halloc
  split at halloc
  · simp at halloc
  · rename_i q s1 hpop
    obtain ⟨⟨e, he, o, hq, hdvd, hle⟩, haligned⟩ := h.popRetry hadded hpop
    have hin : ExtentIn e (q, n) := ⟨o, hq, hdvd, by dsimp only; omega⟩
    split at halloc
    · rename_i hne
      simp only [Prod.mk.injEq, Option.some.injEq] at halloc
      obtain ⟨rfl, rfl⟩ := halloc
      refine ⟨⟨e, he, hin⟩, ?_⟩
      have hlog : Nat.log2 (2 ^ PageManagerCore.bucketFor n - n)
          ≤ PageManagerCore.bucketFor n := by
        have hlt : 2 ^ PageManagerCore.bucketFor n - n < 2 ^ (PageManagerCore.bucketFor n + 1) := by
          rw [Nat.pow_succ]
          omega
        exact Nat.lt_succ_iff.mp ((Nat.log2_lt (by omega)).mpr hlt)
      have hend : EvenEnd true (o + n) (2 ^ PageManagerCore.bucketFor n - n) := by
        unfold EvenEnd
        simp only [if_true]
        have hsum : o + n + (2 ^ PageManagerCore.bucketFor n - n)
            = o + 2 ^ PageManagerCore.bucketFor n := by omega
        rw [hsum]
        have hpow := Nat.pow_dvd_pow 2 hlog
        exact (hpow.trans hdvd).add hpow
      have hstate : Aligned added { s1 with
          ivAvailable := sub64 s1.ivAvailable (2 ^ PageManagerCore.bucketFor n) } := haligned
      refine hstate.freePageLoop hadded true he ?_ hend (by omega)
      rw [hq, Nat.add_mul, Nat.add_assoc]
    · simp only [Prod.mk.injEq, Option.some.injEq] at halloc
      obtain ⟨rfl, rfl⟩ := halloc
      exact ⟨⟨e, he, hin⟩, haligned⟩

/-! ### Adding a range -/

include hadded in
/-- The loop of `addMemory` cuts blocks that do not grow, so each starts at a
multiple of its size. -/
theorem Aligned.addMemoryLoop {fuel o length pageLength : Nat} (h : Aligned added s)
    (he : e ∈ added) (hp : p = e.1 + o * PAGESIZE) (hdvd : 2 ^ pageLength ∣ o)
    (hle : o + length ≤ e.2) :
    Aligned added (PageManagerCore.addMemoryLoop fuel s p length pageLength) := by
  induction fuel generalizing s p length pageLength o with
  | zero => exact h
  | succ fuel ih =>
    rw [PageManagerCore.addMemoryLoop]
    split
    · rename_i hpos
      have hfit := PageManagerCore.two_pow_fitBucket_le hpos pageLength
      have hpow : 2 ^ PageManagerCore.fitBucket length pageLength ∣ o :=
        (Nat.pow_dvd_pow 2 (PageManagerCore.fitBucket_le length pageLength)).trans hdvd
      dsimp only
      generalize PageManagerCore.fitBucket length pageLength = k at hfit hpow ⊢
      refine ih (o := o + 2 ^ k) (h.pushHeap hadded he ⟨o, hp, hpow, by omega⟩) ?_
        (hpow.add (dvd_refl _)) (by omega)
      rw [hp, Nat.add_mul, Nat.add_assoc]
    · exact h

theorem ivRanges_addMemoryLoop (fuel : Nat) (s : PageManagerCore) (p length pageLength : Nat) :
    (PageManagerCore.addMemoryLoop fuel s p length pageLength).ivRanges = s.ivRanges := by
  induction fuel generalizing s p length pageLength with
  | zero => rfl
  | succ fuel ih =>
    rw [PageManagerCore.addMemoryLoop]
    split
    · exact ih _ _ _ _
    · rfl

theorem mem_of_registerRange {addr n : Nat} {ranges ranges' : List (Nat × Nat)}
    (h : PageManagerCore.registerRange addr n ranges = some ranges') {r : Nat × Nat}
    (hr : r ∈ ranges') : r ∈ ranges ∨ r = (addr, n * PAGESIZE) := by
  induction ranges generalizing ranges' with
  | nil =>
    simp only [PageManagerCore.registerRange, Option.some.injEq] at h
    subst h
    exact Or.inl hr
  | cons range rest ih =>
    rw [PageManagerCore.registerRange] at h
    split at h
    · simp only [Option.some.injEq] at h
      subst h
      rcases List.mem_cons.mp hr with heq | hmem
      · exact Or.inr heq
      · exact Or.inl (List.mem_cons_of_mem _ hmem)
    · split at h
      · rw [Option.map_eq_some_iff] at h
        obtain ⟨ranges'', hrec, rfl⟩ := h
        rcases List.mem_cons.mp hr with heq | hmem
        · exact Or.inl (heq ▸ List.mem_cons_self)
        · rcases ih hrec hmem with hold | hnew
          · exact Or.inl (List.mem_cons_of_mem _ hold)
          · exact Or.inr hnew
      · simp at h

/-- The registered ranges are the added ones, and the unused elements of the
tracker hold no address. -/
def Tracked (added ranges : List (Nat × Nat)) : Prop :=
  ∀ r ∈ ranges, r.2 = 0 ∨ ∃ e ∈ added, r = (e.1, e.2 * PAGESIZE)

theorem Aligned.addMemory {addr : Nat} (h : Aligned added s)
    (htracked : Tracked added s.ivRanges) (hok : ∀ e ∈ (addr, n) :: added, ExtentOk e.1 e.2)
    (hadd : s.addMemory addr n = some s') :
    Aligned ((addr, n) :: added) s' ∧ Tracked ((addr, n) :: added) s'.ivRanges := by
  have hext := hok (addr, n) List.mem_cons_self
  have hloop : Aligned ((addr, n) :: added)
      (PageManagerCore.addMemoryLoop n s addr n (BUCKETS - 1)) :=
    (h.mono).addMemoryLoop hok (e := (addr, n)) (o := 0) List.mem_cons_self (by simp)
      (dvd_zero _) (by simp)
  have hranges := ivRanges_addMemoryLoop n s addr n (BUCKETS - 1)
  have hkept : Tracked ((addr, n) :: added) s.ivRanges := by
    intro r hr
    rcases htracked r hr with hzero | ⟨e, he, heq⟩
    · exact Or.inl hzero
    · exact Or.inr ⟨e, List.mem_cons_of_mem _ he, heq⟩
  unfold PageManagerCore.addMemory at hadd
  rw [alignPage_of_aligned hext.aligned] at hadd
  dsimp only at hadd
  split at hadd
  · split at hadd
    · simp at hadd
    · rw [Option.map_eq_some_iff] at hadd
      obtain ⟨ranges, hreg, rfl⟩ := hadd
      refine ⟨hloop, fun r hr => ?_⟩
      rw [hranges] at hreg
      rcases mem_of_registerRange hreg hr with hold | hnew
      · exact hkept r hold
      · exact Or.inr ⟨(addr, n), List.mem_cons_self, hnew⟩
  · simp only [Option.some.injEq] at hadd
    subst hadd
    refine ⟨hloop, ?_⟩
    change Tracked _ (PageManagerCore.addMemoryLoop n s addr n (BUCKETS - 1)).ivRanges
    rw [hranges]
    exact hkept

end Calls

end Hostboot.PageMgr
