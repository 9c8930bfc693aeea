import Hostboot.HeapMgr.Chunks
import Hostboot.Lib.Loop

/-!
# The search for a bucket

`bucketIndex` looks for the bucket of a size with a binary search in the table of
the bucket sizes.  Here the search is a loop whose reads of the table are
checked: `.error` is the index of a read outside of it.  `searchRight_iff` says
that the search ends and is right, and that it leaves the table for the sizes of
the first bucket only.
-/

namespace Hostboot.HeapMgr

open Hostboot.Lib

/-- The variables of the search. -/
structure Search where
  lowIdx : Int
  highIdx : Int
  bucket : Nat

/-- `bucketByteSize` with the check that the table has the index. -/
def readChunkSize (i : Int) : Except Int Nat :=
  if 0 ≤ i ∧ i < BUCKETS then .ok (bucketByteSize i.toNat) else .error i

/-- A round of the search behind its first comparison. -/
def searchBelow (sz bucket : Nat) (s : Search) : Except Int Nat ⊕ Search :=
  let highIdx := (bucket : Int) - 1
  match readChunkSize highIdx with
  | .error i => .inl (.error i)
  | .ok size => if sz > size then .inl (.ok bucket) else .inr { s with highIdx, bucket }

/-- A round of the search. -/
def searchRound (sz : Nat) (s : Search) : Except Int Nat ⊕ Search :=
  if s.lowIdx ≤ s.highIdx then
    let bucket := ((s.lowIdx + s.highIdx) / 2).toNat
    match readChunkSize bucket with
    | .error i => .inl (.error i)
    | .ok size =>
      if sz > size then .inr { s with lowIdx := bucket + 1, bucket } else searchBelow sz bucket s
  else .inl (.ok s.bucket)

/-- `bucketIndex` with checked reads, for a number of rounds. -/
def checkedBucketIndex (sz rounds : Nat) : Option (Except Int Nat) :=
  if sz > bucketByteSize (BUCKETS - 1) then some (.ok BUCKETS)
  else Loop.run (searchRound sz) rounds ⟨0, BUCKETS - 1, 0⟩

/-- The search ends without a read outside of the table, and with the least bucket whose chunks
have the size, or with `BUCKETS` when there is none. -/
def BucketRight (sz : Nat) : Prop :=
  ∃ rounds b, checkedBucketIndex sz rounds = some (.ok b) ∧ b ≤ BUCKETS ∧
    (∀ i < b, bucketByteSize i < sz) ∧ (b < BUCKETS → sz ≤ bucketByteSize b)

variable {sz low high bucket : Nat}

theorem readChunkSize_natCast {i : Nat} (hi : i < BUCKETS) :
    readChunkSize i = .ok (bucketByteSize i) :=
  if_pos ⟨Int.natCast_nonneg i, by exact_mod_cast hi⟩

theorem not_small_of_lt (h : bucketByteSize low < sz) (hlow : low < BUCKETS) :
    MIN_BUCKET_SIZE < sz :=
  (le_bucketByteSize hlow).trans_lt h

/-- The search from a range that holds the bucket: it finds the bucket, and where that is the
first one, it reads below the table. -/
theorem search_returns (hle : low ≤ high) (hhigh : high < BUCKETS)
    (hfit : sz ≤ bucketByteSize high) (hlow : ∀ i < low, bucketByteSize i < sz) :
    Loop.Returns (searchRound sz) ⟨low, high, bucket⟩
      (if sz ≤ MIN_BUCKET_SIZE then .error (-1) else .ok (bucketIndex sz)) := by
  induction hn : high - low using Nat.strong_induction_on generalizing low high bucket with
  | _ n ih =>
    obtain ⟨probe, hprobe⟩ : ∃ probe, probe = (low + high) / 2 := ⟨_, rfl⟩
    have hmid : (((low : Int) + high) / 2).toNat = probe := by omega
    have hround : searchRound sz ⟨low, high, bucket⟩ =
        if sz > bucketByteSize probe then .inr ⟨(probe + 1 : Nat), high, probe⟩
        else searchBelow sz probe ⟨low, high, bucket⟩ := by
      unfold searchRound
      dsimp only
      rw [if_pos (by exact_mod_cast hle), hmid, readChunkSize_natCast (by omega)]
      rfl
    by_cases hgt : sz > bucketByteSize probe
    · -- the bucket lies above the probe
      have hne : probe ≠ high := by
        rintro rfl
        omega
      rw [if_pos hgt] at hround
      refine (Loop.returns_of_next hround).mpr ?_
      refine ih (high - (probe + 1)) (by omega) (by omega) hhigh hfit (fun i hi => ?_) rfl
      exact lt_of_le_of_lt (bucketByteSize_le (by omega) (by omega)) hgt
    · rw [if_neg hgt] at hround
      by_cases hzero : probe = 0
      · -- the first bucket fits, and the word below the table is read
        subst hzero
        have hsmall : sz ≤ MIN_BUCKET_SIZE := not_lt.mp hgt
        rw [if_pos hsmall]
        exact (Loop.returns_of_done hround).mpr rfl
      · have hpred : ((probe : Nat) : Int) - 1 = (probe - 1 : Nat) := by omega
        have hbelow : searchBelow sz probe ⟨low, high, bucket⟩ =
            if sz > bucketByteSize (probe - 1) then .inl (.ok probe)
            else .inr ⟨low, (probe - 1 : Nat), probe⟩ := by
          unfold searchBelow
          dsimp only
          rw [hpred, readChunkSize_natCast (by omega)]
        rw [hbelow] at hround
        by_cases hbreak : sz > bucketByteSize (probe - 1)
        · -- the bucket below is too small
          have hsmallest : Smallest sz probe := by
            refine ⟨not_lt.mp hgt, fun i hi => ?_⟩
            exact lt_of_le_of_lt (bucketByteSize_le (by omega) (by omega)) hbreak
          have hmax : sz ≤ bucketByteSize (BUCKETS - 1) :=
            hfit.trans (bucketByteSize_le (by omega) (by decide))
          have hlarge := not_small_of_lt hbreak (by omega)
          rw [if_pos hbreak] at hround
          rw [if_neg (by omega)]
          refine (Loop.returns_of_done hround).mpr (congrArg Except.ok ?_)
          exact (bucketIndex_smallest hmax).2.unique hsmallest
        · have hlow' : low ≤ probe - 1 := by
            by_contra hlt
            exact hbreak (hlow _ (by omega))
          rw [if_neg hbreak] at hround
          refine (Loop.returns_of_next hround).mpr ?_
          exact ih (probe - 1 - low) (by omega) hlow' (by omega) (by omega) hlow rfl

/-- The search is right exactly for the sizes above the first bucket. -/
theorem bucketRight_iff (sz : Nat) : BucketRight sz ↔ MIN_BUCKET_SIZE < sz := by
  unfold BucketRight checkedBucketIndex
  by_cases hmax : sz > bucketByteSize (BUCKETS - 1)
  · -- no bucket fits
    refine iff_of_true ⟨0, BUCKETS, if_pos hmax, le_rfl, fun i hi => ?_, fun hlt => ?_⟩
      (not_small_of_lt hmax (by decide))
    swap
    · exact absurd hlt (lt_irrefl _)
    exact lt_of_le_of_lt (bucketByteSize_le (by omega) (by decide)) hmax
  · have hreturns := @search_returns sz 0 (BUCKETS - 1) 0 (Nat.zero_le _) (by decide)
      (not_lt.mp hmax) (fun i hi => absurd hi (Nat.not_lt_zero i))
    simp only [if_neg hmax]
    by_cases hsmall : sz ≤ MIN_BUCKET_SIZE
    · rw [if_pos hsmall] at hreturns
      refine iff_of_false ?_ (not_lt.mpr hsmall)
      rintro ⟨rounds, b, hrun, -⟩
      cases hreturns.unique ⟨rounds, hrun⟩
    · rw [if_neg hsmall] at hreturns
      obtain ⟨rounds, hrun⟩ := hreturns
      obtain ⟨hlt, hfit, hleast⟩ := bucketIndex_smallest (not_lt.mp hmax)
      exact iff_of_true ⟨rounds, bucketIndex sz, hrun, hlt.le, hleast, fun _ => hfit⟩ (by omega)

/-- The search for one byte reads below the table. -/
theorem not_bucketRight_one : ¬ BucketRight 1 := by
  rintro ⟨rounds, b, hrun, -⟩
  have hreturns := @search_returns 1 0 (BUCKETS - 1) 0 (Nat.zero_le _) (by decide) (by decide)
    (fun i hi => absurd hi (Nat.not_lt_zero i))
  cases hreturns.unique ⟨rounds, hrun⟩

end Hostboot.HeapMgr
