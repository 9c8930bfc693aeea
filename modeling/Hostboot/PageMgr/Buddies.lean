import Mathlib
import Hostboot.PageMgr.Aligned

/-!
# Buddies

`PageManagerCore::coalesce` (`src/kernel/pagemgr.C`) takes two neighbours for
buddies when the lower one has an even index in its range, and merges them
without asking whether they are of one range.
-/

namespace Hostboot.PageMgr

open Hostboot.Lib Hostboot.Util List

/-! ## Coalescing, with a record -/

/-- What `coalesce` does with a block at an even index that has something to be
compared with: it merges the two blocks, or it reaches its trace. -/
inductive Event where
  | merge (bucket p pNext : Nat)
  | mismatch (bucket p pNext : Nat)
  deriving DecidableEq, Repr

namespace PageManagerCore

/-- `mergeLoop`, which appends to a record what it does. -/
def mergeLoopTrace (bucket : Nat) : Nat → PageManagerCore → List Nat → List Event →
    Option (PageManagerCore × List Event)
  | 0, s, _, events => some (s, events)
  | fuel + 1, s, pq, events =>
    match Queue.remove pq with
    | none => some (s, events)
    | some (p, pq) =>
      match findRange s.ivRanges p with
      | none => none
      | some range =>
        let pIdx := (p - range.1) / (2 ^ bucket * PAGESIZE)
        if pIdx % 2 ≠ 0 then mergeLoopTrace bucket fuel (s.pushHeap p bucket) pq events
        else
          let pSeek := p + 2 ^ bucket * PAGESIZE
          match PQueue.removeIf pq pSeek with
          | (none, pq) => mergeLoopTrace bucket fuel (s.pushHeap p bucket) pq events
          | (some pNext, pq) =>
            if pNext = pSeek then
              mergeLoopTrace bucket fuel (s.pushBucket p (bucket + 1)) pq
                (events ++ [.merge bucket p pNext])
            else
              mergeLoopTrace bucket fuel ((s.pushHeap p bucket).pushHeap pNext bucket) pq
                (events ++ [.mismatch bucket p pNext])

/-- `coalesceBucket` with the record. -/
def coalesceBucketTrace (r : PageManagerCore × List Event) (bucket : Nat) :
    Option (PageManagerCore × List Event) :=
  let drained := drain (r.1.ivHeap bucket) []
  mergeLoopTrace bucket drained.2.length
    { r.1 with ivHeap := Function.update r.1.ivHeap bucket drained.1 } drained.2 r.2

/-- `coalesce` with the record. -/
def coalesceTrace (s : PageManagerCore) : Option (PageManagerCore × List Event) :=
  if s.ivSupportsCoalesce then (List.range (BUCKETS - 1)).foldlM coalesceBucketTrace (s, [])
  else some (s, [])

theorem mergeLoopTrace_fst (bucket fuel : Nat) (s : PageManagerCore) (pq : List Nat)
    (events : List Event) :
    (mergeLoopTrace bucket fuel s pq events).map Prod.fst = mergeLoop bucket fuel s pq := by
  induction fuel generalizing s pq events with
  | zero => rfl
  | succ fuel ih =>
    rw [mergeLoopTrace, mergeLoop]
    cases Queue.remove pq with
    | none => rfl
    | some popped =>
      obtain ⟨p, rest⟩ := popped
      dsimp only
      cases findRange s.ivRanges p with
      | none => rfl
      | some range =>
        dsimp only
        split
        · exact ih _ _ _
        · rcases PQueue.removeIf rest (p + 2 ^ bucket * PAGESIZE) with ⟨next, pq'⟩
          cases next with
          | none => exact ih _ _ _
          | some pNext =>
            dsimp only
            split
            · exact ih _ _ _
            · exact ih _ _ _

theorem foldlM_coalesceBucketTrace_fst (buckets : List Nat) (s : PageManagerCore)
    (events : List Event) :
    (buckets.foldlM coalesceBucketTrace (s, events)).map Prod.fst
      = buckets.foldlM coalesceBucket s := by
  induction buckets generalizing s events with
  | nil => rfl
  | cons bucket rest ih =>
    have hbucket : (coalesceBucketTrace (s, events) bucket).map Prod.fst
        = coalesceBucket s bucket := mergeLoopTrace_fst _ _ _ _ _
    rw [foldlM_cons, foldlM_cons, ← hbucket]
    cases coalesceBucketTrace (s, events) bucket with
    | none => rfl
    | some r => exact ih r.1 r.2

theorem coalesceTrace_fst (s : PageManagerCore) :
    s.coalesceTrace.map Prod.fst = s.coalesce := by
  unfold coalesceTrace coalesce
  split
  · exact foldlM_coalesceBucketTrace_fst _ _ _
  · rfl

end PageManagerCore

/-! ## Only buddies are merged -/

/-- Two ranges with room between them. -/
def Separate (a b : Nat × Nat) : Prop :=
  a.1 + a.2 * PAGESIZE < b.1 ∨ b.1 + b.2 * PAGESIZE < a.1

/-- The blocks at `p` and `q` are the two halves of a block of twice the size
that lies in a range at a multiple of its size. -/
def TrueBuddies (added : List (Nat × Nat)) (k p q : Nat) : Prop :=
  q = p + 2 ^ k * PAGESIZE ∧ ∃ e ∈ added, PlacedIn e (k + 1) p

/-- No two blocks of the free list of a size are buddies. -/
def NoBuddies (added : List (Nat × Nat)) (s : PageManagerCore) (k : Nat) : Prop :=
  ∀ p ∈ s.ivHeap k, ∀ q ∈ s.ivHeap k, ¬ TrueBuddies added k p q

/-- The recorded event is the merge of two buddies. -/
def Event.IsBuddyMerge (added : List (Nat × Nat)) (ev : Event) : Prop :=
  ∃ k p q, ev = .merge k p q ∧ TrueBuddies added k p q

section Coalesce

variable {added : List (Nat × Nat)} (hadded : ∀ e ∈ added, ExtentOk e.1 e.2)
  (hseparate : added.Pairwise Separate) {k p q : Nat} {e e' : Nat × Nat}

include hseparate in
theorem separate_of_ne (he : e ∈ added) (he' : e' ∈ added) (hne : e ≠ e') : Separate e e' := by
  have : Std.Symm Separate := ⟨fun _ _ => Or.symm⟩
  exact hseparate.forall he he' hne

include hseparate in
/-- Of two placed blocks of one size the upper one starts behind the lower one,
and when it starts right there, both are of one range. -/
theorem PlacedIn.next (he : e ∈ added) (he' : e' ∈ added) (hp : PlacedIn e k p)
    (hq : PlacedIn e' k q) (hlt : p < q) :
    p + 2 ^ k * PAGESIZE ≤ q ∧ (q = p + 2 ^ k * PAGESIZE → e = e') := by
  obtain ⟨o, rfl, hdvd, hle⟩ := hp
  obtain ⟨o', rfl, hdvd', hle'⟩ := hq
  have hmul : (o + 2 ^ k) * PAGESIZE ≤ e.2 * PAGESIZE := Nat.mul_le_mul_right _ hle
  have hmul' : (o' + 2 ^ k) * PAGESIZE ≤ e'.2 * PAGESIZE := Nat.mul_le_mul_right _ hle'
  by_cases heq : e = e'
  · subst heq
    refine ⟨?_, fun _ => rfl⟩
    have hoff : o < o' := by
      by_contra hge
      have := Nat.mul_le_mul_right PAGESIZE (not_lt.mp hge)
      omega
    -- Both offsets are multiples of the size, so they differ by the size.
    have hstep : 2 ^ k ≤ o' - o := Nat.le_of_dvd (by omega) (Nat.dvd_sub hdvd' hdvd)
    have := Nat.mul_le_mul_right PAGESIZE (show o + 2 ^ k ≤ o' by omega)
    rw [Nat.add_mul] at this
    omega
  · have hpow := Nat.two_pow_pos k
    rw [Nat.add_mul] at hmul hmul'
    rcases separate_of_ne hseparate he he' heq with hapart | hapart
    · exact ⟨by omega, fun h => by omega⟩
    · have : 0 < 2 ^ k * PAGESIZE := Nat.mul_pos hpow (by decide)
      omega

include hseparate in
theorem eq_of_mem_ranges (he : e ∈ added) (he' : e' ∈ added) (hlo : e.1 ≤ p)
    (hhi : p < e.1 + e.2 * PAGESIZE) (hlo' : e'.1 ≤ p) (hhi' : p < e'.1 + e'.2 * PAGESIZE) :
    e = e' := by
  by_contra hne
  rcases separate_of_ne hseparate he he' hne with hapart | hapart <;> omega

theorem PlacedIn.mem (hp : PlacedIn e k p) : e.1 ≤ p ∧ p < e.1 + e.2 * PAGESIZE := by
  obtain ⟨o, rfl, -, hle⟩ := hp
  have hpow := Nat.two_pow_pos k
  have hmul : (o + 1) * PAGESIZE ≤ e.2 * PAGESIZE := Nat.mul_le_mul_right _ (by omega)
  unfold PAGESIZE at *
  omega

include hseparate in
theorem findRange_of_placed {ranges : List (Nat × Nat)} (htracked : Tracked added ranges)
    (hregistered : (e.1, e.2 * PAGESIZE) ∈ ranges) (he : e ∈ added) (hp : PlacedIn e k p) :
    PageManagerCore.findRange ranges p = some (e.1, e.2 * PAGESIZE) := by
  obtain ⟨hlo, hhi⟩ := hp.mem
  cases hfind : PageManagerCore.findRange ranges p with
  | none =>
    have hall := find?_eq_none.mp hfind _ hregistered
    simp [hlo, hhi] at hall
  | some r =>
    have hmem := mem_of_find?_eq_some hfind
    have hin := find?_some hfind
    simp only [Bool.and_eq_true, decide_eq_true_eq] at hin
    rcases htracked r hmem with hzero | ⟨e', he', rfl⟩
    · omega
    · rw [eq_of_mem_ranges hseparate he he' hlo hhi hin.1 hin.2]

theorem index_even {o : Nat} (hdvd : 2 ^ k ∣ o) :
    o * PAGESIZE / (2 ^ k * PAGESIZE) % 2 = 0 ↔ 2 ^ (k + 1) ∣ o := by
  obtain ⟨c, rfl⟩ := hdvd
  rw [Nat.mul_div_mul_right _ _ (by decide), Nat.mul_div_cancel_left _ (Nat.two_pow_pos k),
    Nat.pow_succ, Nat.mul_dvd_mul_iff_left (Nat.two_pow_pos k), Nat.dvd_iff_mod_eq_zero]

/-! ### The loop over the blocks of one size -/

/-- The state of the loop: the blocks in the queue are sorted and lie above the
blocks that went back, and no block that went back has its buddy among the
others. -/
structure Merging (added : List (Nat × Nat)) (bucket : Nat) (s : PageManagerCore)
    (pq : List Nat) : Prop where
  aligned : Aligned added s
  placed : ∀ p ∈ pq, ∃ e ∈ added, PlacedIn e bucket p
  sorted : pq.Pairwise (· > ·)
  below : ∀ q ∈ s.ivHeap bucket, ∀ p ∈ pq, q < p
  noBuddies : ∀ q ∈ s.ivHeap bucket, ∀ x, x ∈ s.ivHeap bucket ∨ x ∈ pq →
    ¬ TrueBuddies added bucket q x
  tracked : Tracked added s.ivRanges
  registered : ∀ e ∈ added, (e.1, e.2 * PAGESIZE) ∈ s.ivRanges

variable {bucket : Nat} {s : PageManagerCore} {pq : List Nat}

theorem lt_of_trueBuddies (h : TrueBuddies added k p q) : p < q := by
  have hpos : 0 < 2 ^ k * PAGESIZE := Nat.mul_pos (Nat.two_pow_pos k) (by decide)
  have := h.1
  omega

theorem Merging.least (h : Merging added bucket s (pq ++ [p])) : ∀ x ∈ pq, p < x := fun x hx =>
  (pairwise_append.mp h.sorted).2.2 x hx p (mem_singleton_self p)

include hadded in
theorem Merging.push (h : Merging added bucket s (pq ++ [p]))
    (halone : ∀ x ∈ pq, ¬ TrueBuddies added bucket p x) :
    Merging added bucket (s.pushHeap p bucket) pq := by
  obtain ⟨e, he, hp⟩ := h.placed p (by simp)
  have hheap : (s.pushHeap p bucket).ivHeap bucket = p :: s.ivHeap bucket := by
    simp only [PageManagerCore.pushHeap, Stack.push, Function.update_self,
      getPtr_of_lt (hp.lt (hadded e he))]
  refine ⟨h.aligned.pushHeap hadded he hp, fun x hx => h.placed x (by simp [hx]),
    (pairwise_append.mp h.sorted).1, ?_, ?_, h.tracked, h.registered⟩
  · intro q hq x hx
    rw [hheap] at hq
    rcases mem_cons.mp hq with heq | hq
    · exact heq ▸ h.least x hx
    · exact h.below q hq x (by simp [hx])
  · intro q hq x hx hbuddies
    have hlt := lt_of_trueBuddies hbuddies
    rw [hheap] at hq hx
    rcases mem_cons.mp hq with heq | hq
    · rcases hx with hx | hx
      · rcases mem_cons.mp hx with heq' | hx
        · omega
        · have := h.below x hx p (by simp)
          omega
      · exact halone x hx (heq ▸ hbuddies)
    · rcases hx with hx | hx
      · rcases mem_cons.mp hx with heq' | hx
        · exact h.noBuddies q hq x (Or.inr (by simp [heq'])) hbuddies
        · exact h.noBuddies q hq x (Or.inl hx) hbuddies
      · exact h.noBuddies q hq x (Or.inr (by simp [hx])) hbuddies

include hadded in
theorem Merging.merge (h : Merging added bucket s (pq ++ [q] ++ [p])) (he : e ∈ added)
    (hp : PlacedIn e (bucket + 1) p) :
    Merging added bucket (s.pushBucket p (bucket + 1)) pq := by
  have hheap : (s.pushBucket p (bucket + 1)).ivHeap bucket = s.ivHeap bucket := by
    rw [PageManagerCore.pushBucket]
    split
    · rfl
    · rw [PageManagerCore.pushHeap]
      exact Function.update_of_ne (Nat.ne_of_lt (Nat.lt_succ_self bucket)) _ _
  have hranges : (s.pushBucket p (bucket + 1)).ivRanges = s.ivRanges := by
    rw [PageManagerCore.pushBucket]
    split <;> rfl
  have hsub : ∀ x ∈ pq, x ∈ pq ++ [q] ++ [p] := fun x hx => by simp [hx]
  refine ⟨h.aligned.pushBucket hadded he hp, fun x hx => h.placed x (hsub x hx), ?_, ?_, ?_, ?_, ?_⟩
  · exact (pairwise_append.mp (pairwise_append.mp h.sorted).1).1
  · intro y hy x hx
    rw [hheap] at hy
    exact h.below y hy x (hsub x hx)
  · intro y hy x hx
    rw [hheap] at hy hx
    exact h.noBuddies y hy x (hx.imp_right (hsub x))
  · rw [hranges]
    exact h.tracked
  · rw [hranges]
    exact h.registered

theorem lt_of_removeIf_none {queue queue' : List Nat} {key : Nat}
    (h : PQueue.removeIf queue key = (none, queue')) (hsorted : queue.Pairwise (· > ·)) :
    ∀ x ∈ queue, key < x := by
  rcases eq_nil_or_concat queue with rfl | ⟨init, last, rfl⟩
  · intro x hx
    cases hx
  · rw [concat_eq_append] at *
    simp only [PQueue.removeIf, getLast?_append, getLast?_singleton, Option.some_or] at h
    split at h
    · simp at h
    · rename_i hgt
      intro x hx
      rcases mem_append.mp hx with hx | hx
      · have := (pairwise_append.mp hsorted).2.2 x hx last (mem_singleton_self last)
        omega
      · rw [mem_singleton.mp hx]
        omega

/-- What the loop reaches. -/
structure Merged (added : List (Nat × Nat)) (bucket : Nat) (s s' : PageManagerCore)
    (events : List Event) : Prop where
  aligned : Aligned added s'
  noBuddies : NoBuddies added s' bucket
  others : ∀ j, j ≠ bucket → j ≠ bucket + 1 → s'.ivHeap j = s.ivHeap j
  ranges : s'.ivRanges = s.ivRanges
  events : ∀ ev ∈ events, ev.IsBuddyMerge added

include hadded hseparate in
/-- The loop finds the range of every block, merges buddies only and leaves no
two buddies. -/
theorem mergeLoop_merged {fuel : Nat} {events : List Event} (h : Merging added bucket s pq)
    (hfuel : pq.length ≤ fuel) (hevents : ∀ ev ∈ events, ev.IsBuddyMerge added) :
    ∃ s' events', PageManagerCore.mergeLoopTrace bucket fuel s pq events = some (s', events') ∧
      Merged added bucket s s' events' := by
  induction fuel generalizing s pq events with
  | zero =>
    have hnil : pq = [] := length_eq_zero_iff.mp (by omega)
    exact ⟨s, events, rfl, h.aligned, fun q hq x hx => h.noBuddies q hq x (Or.inl hx),
      fun _ _ _ => rfl, rfl, hevents⟩
  | succ fuel ih =>
    rw [PageManagerCore.mergeLoopTrace]
    cases hrem : Queue.remove pq with
    | none =>
      exact ⟨s, events, rfl, h.aligned, fun q hq x hx => h.noBuddies q hq x (Or.inl hx),
        fun _ _ _ => rfl, rfl, hevents⟩
    | some popped =>
      obtain ⟨p, rest⟩ := popped
      have hpq := Queue.remove_eq_some hrem
      subst hpq
      obtain ⟨e, he, hp⟩ := h.placed p (by simp)
      have hrange := findRange_of_placed hseparate h.tracked (h.registered e he) he hp
      have hlen : rest.length ≤ fuel := by
        rw [length_append, length_singleton] at hfuel
        omega
      -- A block that goes back leaves the other lists as they are.
      have hback : (∀ x ∈ rest, ¬ TrueBuddies added bucket p x) →
          ∃ s' events', PageManagerCore.mergeLoopTrace bucket fuel (s.pushHeap p bucket) rest events
            = some (s', events') ∧ Merged added bucket s s' events' := by
        intro halone
        obtain ⟨s', events', heq, hmerged⟩ := ih (h.push hadded halone) hlen hevents
        refine ⟨s', events', heq, hmerged.aligned, hmerged.noBuddies, fun j hj hj' => ?_,
          hmerged.ranges, hmerged.events⟩
        rw [hmerged.others j hj hj']
        exact Function.update_of_ne hj _ _
      obtain ⟨o, hpo, hdvd, hle⟩ := hp
      have hidx : p - e.1 = o * PAGESIZE := by omega
      simp only [hrange, hidx]
      have hp : PlacedIn e bucket p := ⟨o, hpo, hdvd, hle⟩
      split
      · rename_i hodd
        refine hback fun x _ hbuddies => hodd ?_
        obtain ⟨-, e', he', hp'⟩ := hbuddies
        have heq := eq_of_mem_ranges hseparate he he' hp.mem.1 hp.mem.2 hp'.mem.1 hp'.mem.2
        subst heq
        obtain ⟨o', hpo', hdvd', -⟩ := hp'
        have hoff : o' = o := by
          have : o * PAGESIZE = o' * PAGESIZE := by omega
          exact (Nat.eq_of_mul_eq_mul_right (by decide) this).symm
        rw [index_even hdvd, ← hoff]
        exact hdvd'
      · rename_i heven
        have hdouble : 2 ^ (bucket + 1) ∣ o := (index_even hdvd).mp (not_not.mp heven)
        rcases hif : PQueue.removeIf rest (p + 2 ^ bucket * PAGESIZE) with ⟨next, pq'⟩
        have hsorted := (pairwise_append.mp h.sorted).1
        rcases PQueue.removeIf_cases rest (p + 2 ^ bucket * PAGESIZE) with
          ⟨pNext, hif', hrest, hseek⟩ | hif'
        · rw [hif] at hif'
          obtain ⟨rfl, rfl⟩ := Prod.mk.inj hif'
          -- The next block is not below the upper half, so it is the upper half.
          obtain ⟨e', he', hnext⟩ := h.placed pNext (by rw [hrest]; simp)
          have hlt : p < pNext := h.least pNext (by rw [hrest]; simp)
          obtain ⟨habove, hsame⟩ := hp.next hseparate he he' hnext hlt
          have hupper : pNext = p + 2 ^ bucket * PAGESIZE := by omega
          have hranges := hsame hupper
          subst hranges
          have hplaced : PlacedIn e (bucket + 1) p := by
            obtain ⟨o', hpo', hdvd', hle'⟩ := hnext
            have hoff : o' = o + 2 ^ bucket := by
              have : o' * PAGESIZE = (o + 2 ^ bucket) * PAGESIZE := by
                rw [Nat.add_mul]
                omega
              exact Nat.eq_of_mul_eq_mul_right (by decide) this
            refine ⟨o, hpo, hdouble, ?_⟩
            rw [Nat.pow_succ]
            omega
          simp only [hupper, if_true]
          rw [hrest] at h
          have hevents' : ∀ ev ∈ events ++ [Event.merge bucket p (p + 2 ^ bucket * PAGESIZE)],
              ev.IsBuddyMerge added := by
            intro ev hev
            rcases mem_append.mp hev with hev | hev
            · exact hevents ev hev
            · exact ⟨bucket, p, _, mem_singleton.mp hev, rfl, e, he, hplaced⟩
          have hlen' : rest.dropLast.length ≤ fuel := by
            rw [length_dropLast]
            omega
          obtain ⟨s', events', heq, hmerged⟩ := ih (h.merge hadded he hplaced) hlen' hevents'
          refine ⟨s', events', heq, hmerged.aligned, hmerged.noBuddies, fun j hj hj' => ?_, ?_,
            hmerged.events⟩
          · rw [hmerged.others j hj hj', PageManagerCore.pushBucket]
            split
            · rfl
            · exact Function.update_of_ne hj' _ _
          · rw [hmerged.ranges, PageManagerCore.pushBucket]
            split <;> rfl
        · have habove := lt_of_removeIf_none hif' hsorted
          rw [hif] at hif'
          obtain ⟨rfl, rfl⟩ := Prod.mk.inj hif'
          refine hback fun x hx hbuddies => ?_
          have := habove x hx
          have := hbuddies.1
          omega

/-! ### The rounds -/

theorem bubbleUp_sorted {queue : List Nat} (h : queue.Pairwise (· ≥ ·)) (item : Nat) :
    (PQueue.bubbleUp item queue).Pairwise (· ≥ ·) := by
  induction queue with
  | nil => exact pairwise_singleton _ _
  | cons next rest ih =>
    obtain ⟨hnext, hrest⟩ := pairwise_cons.mp h
    rw [PQueue.bubbleUp]
    split
    · rename_i hle
      refine pairwise_cons.mpr ⟨fun x hx => ?_, h⟩
      rcases mem_cons.mp hx with heq | hx
      · exact heq ▸ hle
      · exact le_trans (hnext x hx) hle
    · rename_i hgt
      refine pairwise_cons.mpr ⟨fun x hx => ?_, ih hrest⟩
      rcases mem_cons.mp ((PQueue.bubbleUp_perm item rest).mem_iff.mp hx) with heq | hx
      · rw [heq]
        exact Nat.le_of_lt (not_le.mp hgt)
      · exact hnext x hx

theorem drain_sorted {stack pq : List Nat} (h : pq.Pairwise (· ≥ ·)) :
    (PageManagerCore.drain stack pq).2.Pairwise (· ≥ ·) := by
  induction stack generalizing pq with
  | nil => exact h
  | cons p rest ih =>
    rw [PageManagerCore.drain]
    split
    · exact h
    · exact ih (bubbleUp_sorted h p)

theorem nodup_ivHeap (hnodup : s.heapPages.Nodup) (hk : k < BUCKETS) : (s.ivHeap k).Nodup := by
  rw [PageManagerCore.heapPages, Buckets.content_split BUCKETS _ s.ivHeap hk] at hnodup
  have hlist := (Multiset.nodup_add.mp hnodup).1
  generalize s.ivHeap k = l at hlist
  induction l with
  | nil => exact nodup_nil
  | cons p l ih =>
    rw [Buckets.listContent_cons] at hlist
    obtain ⟨-, hrest, hdisjoint⟩ := Multiset.nodup_add.mp hlist
    refine nodup_cons.mpr ⟨fun hp => ?_, ih hrest⟩
    have hmem : p / PAGESIZE ∈ pages p (2 ^ k) :=
      mem_pages.mpr ⟨le_rfl, by have := Nat.two_pow_pos k; omega⟩
    exact Multiset.disjoint_left.mp hdisjoint hmem (Buckets.mem_listContent_of_mem hp hmem)

/-- The core before a round of `coalesce`. -/
structure Ready (added : List (Nat × Nat)) (s : PageManagerCore) : Prop where
  blocks : s.BlocksOk
  aligned : Aligned added s
  nodup : s.heapPages.Nodup
  covered : PageManagerCore.Covered s.ivRanges s.heapPages
  tracked : Tracked added s.ivRanges
  registered : ∀ e ∈ added, (e.1, e.2 * PAGESIZE) ∈ s.ivRanges

include hadded hseparate in
theorem coalesceBucket_merged {events : List Event} (h : Ready added s)
    (hb : bucket + 1 < BUCKETS) (hevents : ∀ ev ∈ events, ev.IsBuddyMerge added) :
    ∃ s' events', PageManagerCore.coalesceBucketTrace (s, events) bucket = some (s', events') ∧
      Ready added s' ∧ Merged added bucket s s' events' := by
  have hne : ∀ p ∈ s.ivHeap bucket, p ≠ 0 := fun p hp => (h.blocks bucket p hp).pos.ne'
  obtain ⟨hnil, hperm⟩ := PageManagerCore.drain_perm [] hne
  rw [append_nil] at hperm
  have hsorted : (PageManagerCore.drain (s.ivHeap bucket) []).2.Pairwise (· > ·) := by
    have hge : (PageManagerCore.drain (s.ivHeap bucket) []).2.Pairwise (· ≥ ·) :=
      drain_sorted List.Pairwise.nil
    have hnodup := (hperm.nodup_iff).mpr (nodup_ivHeap (k := bucket) h.nodup (by omega))
    refine (hge.and hnodup).imp fun hab => ?_
    exact lt_of_le_of_ne hab.1 (Ne.symm hab.2)
  have hempty : ({ s with ivHeap := Function.update s.ivHeap bucket [] } :
      PageManagerCore).ivHeap bucket = [] := Function.update_self _ _ _
  have hmerging : Merging added bucket { s with ivHeap := Function.update s.ivHeap bucket [] }
      (PageManagerCore.drain (s.ivHeap bucket) []).2 := by
    refine ⟨h.aligned.shrink (by simp), fun p hp => h.aligned bucket p (hperm.mem_iff.mp hp),
      hsorted, ?_, ?_, h.tracked, h.registered⟩
    · rw [hempty]
      intro q hq
      cases hq
    · rw [hempty]
      intro q hq
      cases hq
  obtain ⟨s', events', heq, hmerged⟩ :=
    mergeLoop_merged hadded hseparate hmerging le_rfl hevents
  have htrace : PageManagerCore.coalesceBucketTrace (s, events) bucket = some (s', events') := by
    unfold PageManagerCore.coalesceBucketTrace
    simp only [hnil]
    exact heq
  obtain ⟨s'', hs'', hregrouped⟩ :=
    PageManagerCore.coalesceBucket_regrouped h.blocks hb h.covered
  have hsame : s'' = s' := by
    have hfst : (PageManagerCore.coalesceBucketTrace (s, events) bucket).map Prod.fst
        = PageManagerCore.coalesceBucket s bucket :=
      PageManagerCore.mergeLoopTrace_fst _ _ _ _ _
    rw [htrace, hs''] at hfst
    exact (Option.some.inj hfst).symm
  subst hsame
  have hfree : s''.heapPages = s.heapPages := by rw [hregrouped.free, add_zero]
  refine ⟨s'', events', htrace, ⟨hregrouped.blocks, hmerged.aligned, ?_, ?_, ?_, ?_⟩,
    hmerged.aligned, hmerged.noBuddies, fun j hj hj' => ?_, hmerged.ranges, hmerged.events⟩
  · rw [hfree]
    exact h.nodup
  · rw [hfree, hregrouped.ranges.1]
    exact h.covered
  · rw [hregrouped.ranges.1]
    exact h.tracked
  · rw [hregrouped.ranges.1]
    exact h.registered
  · rw [hmerged.others j hj hj']
    exact Function.update_of_ne hj _ _

include hadded hseparate in
/-- The first `n` rounds: a round leaves the lists of smaller blocks alone, so
no buddies come back there. -/
theorem foldlM_coalesceBucket_merged (h : Ready added s) {n : Nat} (hn : n + 1 ≤ BUCKETS) :
    ∃ s' events, (List.range n).foldlM PageManagerCore.coalesceBucketTrace (s, [])
        = some (s', events) ∧
      Ready added s' ∧ (∀ k < n, NoBuddies added s' k) ∧
      ∀ ev ∈ events, ev.IsBuddyMerge added := by
  induction n with
  | zero =>
    refine ⟨s, [], rfl, h, fun k hk => absurd hk (Nat.not_lt_zero k), fun ev hev => ?_⟩
    cases hev
  | succ n ih =>
    obtain ⟨s1, events1, heq1, hready1, hno1, hevents1⟩ := ih (by omega)
    obtain ⟨s2, events2, heq2, hready2, hmerged⟩ :=
      coalesceBucket_merged hadded hseparate hready1 (show n + 1 < BUCKETS by omega) hevents1
    refine ⟨s2, events2, ?_, hready2, fun k hk => ?_, hmerged.events⟩
    · rw [range_succ, foldlM_append, heq1]
      simp only [Option.bind_eq_bind, Option.bind_some, foldlM_cons, foldlM_nil, heq2]
      rfl
    · by_cases hlast : k = n
      · exact hlast ▸ hmerged.noBuddies
      · have hsame := hmerged.others k hlast (by omega)
        intro p hp q hq
        rw [hsame] at hp hq
        exact hno1 k (by omega) p hp q hq

include hadded hseparate in
/-- `coalesce` returns, merges buddies only and leaves no two buddies in a list
below the last. -/
theorem coalesce_merged (haligned : Aligned added s)
    (hready : s.ivSupportsCoalesce = true → Ready added s) :
    ∃ s' events, s.coalesceTrace = some (s', events) ∧ s.coalesce = some s' ∧
      Aligned added s' ∧ s'.ivRanges = s.ivRanges ∧ (∀ ev ∈ events, ev.IsBuddyMerge added) ∧
      (s.ivSupportsCoalesce = true → ∀ k < BUCKETS - 1, NoBuddies added s' k) ∧
      (s.ivSupportsCoalesce = false → s' = s) := by
  by_cases hco : s.ivSupportsCoalesce = true
  · have hrounds : BUCKETS - 1 + 1 ≤ BUCKETS := by decide
    obtain ⟨s', events, heq, hready', hno, hevents⟩ :=
      foldlM_coalesceBucket_merged hadded hseparate (hready hco) hrounds
    have htrace : s.coalesceTrace = some (s', events) := by
      rw [PageManagerCore.coalesceTrace, if_pos hco]
      exact heq
    have hfst := s.coalesceTrace_fst
    rw [htrace] at hfst
    obtain ⟨s'', hs'', hregrouped⟩ := PageManagerCore.coalesce_regrouped (hready hco).blocks
      fun _ => (hready hco).covered
    rw [← hfst] at hs''
    cases hs''
    exact ⟨s', events, htrace, hfst.symm, hready'.aligned, hregrouped.ranges.1, hevents,
      fun _ => hno, fun hno => absurd (hno.symm.trans hco) Bool.false_ne_true⟩
  · refine ⟨s, [], ?_, ?_, haligned, rfl, fun ev hev => ?_, fun h => absurd h hco, fun _ => rfl⟩
    · rw [PageManagerCore.coalesceTrace, if_neg hco]
    · rw [PageManagerCore.coalesce, if_neg hco]
    · cases hev

end Coalesce

/-! ## Every run -/

/-- A call, where a range is added only with room to the earlier ones. -/
def SeparateStep (s : Sys) (op : Op) (s' : Sys) : Prop :=
  Step s op s' ∧ ∀ addr n, op = .addMemory addr n → ∀ r ∈ s.added, Separate (addr, n) r

/-- The law of the blocks in a system: it also holds for the extents of the
clients, which come back as blocks. -/
structure BuddyInv (s : Sys) : Prop where
  inv : Inv s
  separate : s.added.Pairwise Separate
  aligned : Aligned s.added s.core
  outstanding : ∀ x ∈ s.outstanding, ∃ e ∈ s.added, ExtentIn e x
  tracked : Tracked s.added s.core.ivRanges

theorem BuddyInv.ready {s : Sys} (h : BuddyInv s) (hco : s.core.ivSupportsCoalesce = true) :
    Ready s.added s.core where
  blocks := h.inv.blocks
  aligned := h.aligned
  nodup := by
    have hnodup := h.inv.nodup
    rw [← h.inv.partition] at hnodup
    exact (Multiset.nodup_add.mp hnodup).1
  covered := h.inv.covered hco
  tracked := h.tracked
  registered := h.inv.registered hco

theorem buddyInv_init (supportsCoalesce : Bool) : BuddyInv (Sys.init supportsCoalesce) where
  inv := inv_init supportsCoalesce
  separate := List.Pairwise.nil
  aligned := by intro k p hp; simp [Sys.init, PageManagerCore.init] at hp
  outstanding := by simp [Sys.init]
  tracked := by
    intro r hr
    simp only [Sys.init, PageManagerCore.init, mem_replicate] at hr
    exact Or.inl (by rw [hr.2])

theorem buddyInv_step {s s' : Sys} {op : Op} (h : BuddyInv s) (hstep : SeparateStep s op s') :
    BuddyInv s' := by
  obtain ⟨hstep, hroom⟩ := hstep
  have hinv := inv_step h.inv hstep
  cases hstep with
  | @addMemory addr n core hext hapart hadd =>
    obtain ⟨haligned, htracked⟩ := h.aligned.addMemory h.tracked hinv.added hadd
    refine ⟨hinv, pairwise_cons.mpr ⟨hroom addr n rfl, h.separate⟩, haligned, ?_, htracked⟩
    intro x hx
    obtain ⟨e, he, hin⟩ := h.outstanding x hx
    exact ⟨e, mem_cons_of_mem _ he, hin⟩
  | @allocatePage n page core hn halloc =>
    cases page with
    | none =>
      have hsame := PageManagerCore.allocatePage_none halloc
      subst hsame
      exact h
    | some p =>
      obtain ⟨hin, haligned⟩ := h.aligned.allocatePage h.inv.added (by omega) halloc
      have hspec := PageManagerCore.allocatePage_some h.inv.blocks (by omega) h.inv.available.ge
        h.inv.available_lt halloc
      refine ⟨hinv, h.separate, haligned, fun x hx => ?_, ?_⟩
      · rcases mem_cons.mp hx with heq | hx
        · exact heq ▸ hin
        · exact h.outstanding x hx
      · rw [hspec.ranges.1]
        exact h.tracked
  | @freePage page n hmem =>
    obtain ⟨e, he, hin⟩ := h.outstanding _ hmem
    obtain ⟨hext, hpos, hlt⟩ := h.inv.outstanding _ hmem
    have hspec := PageManagerCore.freePage_freed false h.inv.blocks hpos hlt hext
    refine ⟨hinv, h.separate, h.aligned.freePage h.inv.added he hin,
      fun x hx => h.outstanding x (mem_of_mem_erase hx), ?_⟩
    rw [hspec.ranges.1]
    exact h.tracked
  | @coalesce core hco =>
    obtain ⟨s1, events, -, hco', haligned, hranges, -⟩ :=
      coalesce_merged h.inv.added h.separate h.aligned h.ready
    rw [hco] at hco'
    cases hco'
    refine ⟨hinv, h.separate, haligned, h.outstanding, ?_⟩
    rw [hranges]
    exact h.tracked

theorem buddyInv_of_run {supportsCoalesce : Bool} {ops : List Op} {s : Sys}
    (hrun : Run SeparateStep (Sys.init supportsCoalesce) ops s) : BuddyInv s :=
  hrun.invariant (buddyInv_init supportsCoalesce) fun _ _ _ => buddyInv_step

/-- After every run that adds ranges with room between them, a block of `2 ^ k`
pages starts at an offset from its range that is a multiple of its size.  The
next `coalesce` does not assert, and all it does to pairs of blocks is to merge
buddies.  When the core supports coalescing, no two buddies are left in a list
below the last; otherwise nothing changes. -/
theorem buddies_of_run {supportsCoalesce : Bool} {ops : List Op} {s : Sys}
    (hrun : Run SeparateStep (Sys.init supportsCoalesce) ops s) :
    (∀ k, ∀ p ∈ s.core.ivHeap k, ∃ e ∈ s.added, e.1 ≤ p ∧
      p + 2 ^ k * PAGESIZE ≤ e.1 + e.2 * PAGESIZE ∧ (p - e.1) % (2 ^ k * PAGESIZE) = 0) ∧
    ∃ core events, s.core.coalesceTrace = some (core, events) ∧ s.core.coalesce = some core ∧
      (∀ ev ∈ events, ev.IsBuddyMerge s.added) ∧
      (s.core.ivSupportsCoalesce = true → ∀ k < BUCKETS - 1, NoBuddies s.added core k) ∧
      (s.core.ivSupportsCoalesce = false → core = s.core) := by
  have h := buddyInv_of_run hrun
  constructor
  · intro k p hp
    obtain ⟨e, he, o, hpo, hdvd, hle⟩ := h.aligned k p hp
    have hmul : (o + 2 ^ k) * PAGESIZE ≤ e.2 * PAGESIZE := Nat.mul_le_mul_right _ hle
    rw [Nat.add_mul] at hmul
    refine ⟨e, he, by omega, by omega, ?_⟩
    rw [hpo, Nat.add_sub_cancel_left]
    exact Nat.mod_eq_zero_of_dvd (Nat.mul_dvd_mul_right hdvd PAGESIZE)
  · obtain ⟨core, events, htrace, hco, -, -, hevents, hno⟩ :=
      coalesce_merged h.inv.added h.separate h.aligned h.ready
    exact ⟨core, events, htrace, hco, hevents, hno⟩

/-- Two pages are added, one is allocated and freed again, so the block of two
pages is cut into buddies. -/
def cutInTwo : List Op := [.addMemory 4096 2, .allocatePage 1, .freePage 4096 1]

theorem run_cutInTwo (supportsCoalesce : Bool) : ∃ s,
    Run SeparateStep (Sys.init supportsCoalesce) cutInTwo s ∧ s.added = [(4096, 2)] ∧
      s.core.ivHeap 0 = [4096, 8192] ∧ s.core.ivSupportsCoalesce = supportsCoalesce := by
  have hext : ExtentOk 4096 2 := ⟨by decide, by decide, by decide⟩
  cases supportsCoalesce <;>
    exact ⟨_, .snoc (.snoc (.snoc .nil ⟨.addMemory hext (by simp [Sys.init]) rfl,
      by simp [Sys.init]⟩) ⟨.allocatePage (by decide) rfl, by simp⟩)
      ⟨.freePage (by decide), by simp⟩, rfl, rfl, rfl⟩

/-- The buddies are merged. -/
theorem buddies_of_run_two_pages : ∃ s core,
    Run SeparateStep (Sys.init true) cutInTwo s ∧ s.core.coalesce = some core ∧
      NoBuddies s.added core 0 := by
  obtain ⟨s, hrun, -, -, hsupports⟩ := run_cutInTwo true
  obtain ⟨core, -, -, hco, -, hno, -⟩ := (buddies_of_run hrun).2
  exact ⟨s, core, hrun, hco, hno hsupports 0 (by decide)⟩

/-- A core that does not support coalescing keeps them. -/
theorem buddies_kept_without_coalescing : ∃ s core,
    Run SeparateStep (Sys.init false) cutInTwo s ∧ s.core.coalesce = some core ∧
      ¬ NoBuddies s.added core 0 := by
  obtain ⟨s, hrun, hadded, hheap, hsupports⟩ := run_cutInTwo false
  refine ⟨s, s.core, hrun, ?_, fun hno => ?_⟩
  · rw [PageManagerCore.coalesce, if_neg (by rw [hsupports]; exact Bool.false_ne_true)]
  · refine hno 4096 (by rw [hheap]; decide) 8192 (by rw [hheap]; decide) ⟨rfl, (4096, 2), ?_, ?_⟩
    · rw [hadded]
      exact mem_singleton_self _
    · exact ⟨0, rfl, dvd_zero _, le_rfl⟩

end Hostboot.PageMgr
