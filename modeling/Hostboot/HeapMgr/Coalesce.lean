import Mathlib
import Hostboot.HeapMgr.Alloc

/-!
# Coalescing the small heap

`_coalesce` empties the free stacks into a chain, walks the chain and merges
each chunk with the chunk above it as long as the sum is a bucket size, and
pushes what is left back.  A chunk that was merged into another one stays in
the chain until the end of the walk; its flags are cleared, and the walk skips
it.

`chainChunks m chain` are the chunks the chain stands for, that is the ones
whose flags are set.  `Chained h regions chain held` is the invariant: these
chunks, the free stacks and `held` tile the pages.  Each part of `_coalesce`
has one lemma: `gatherStack_spec`, `mergeBuddy_spec`, `restore_spec`.
`coalesce_spec` puts them together and says that the loops end.
-/

namespace Hostboot.HeapMgr

open Hostboot.Lib Hostboot.Util HeapManager List

/-- The chunks of the chain that still stand for themselves. -/
def chainChunks (m : Mem) (chain : List Nat) : Multiset (Nat × Nat) :=
  ((chain : Multiset Nat).filter fun c => isActive m c).map fun c => (c, chunkBucket m c)

theorem isActive_iff {m : Mem} {c : Nat} :
    isActive m c = true ↔ chunkFree m c = byte 'F' ∧ chunkCoalesce m c = byte 'C' := by
  simp [isActive]

theorem SameHeader.isActive_eq {m m' : Mem} {c : Nat} (h : SameHeader m m' c) :
    isActive m' c = isActive m c := by
  rw [isActive, isActive, h.free, h.coalesce]

theorem chainChunks_nil (m : Mem) : chainChunks m [] = 0 := rfl

theorem mem_chainChunks {m : Mem} {chain : List Nat} {d : Nat × Nat} :
    d ∈ chainChunks m chain ↔
      d.1 ∈ chain ∧ isActive m d.1 = true ∧ chunkBucket m d.1 = d.2 := by
  rw [chainChunks, Multiset.mem_map]
  constructor
  · rintro ⟨c, hc, rfl⟩
    rw [Multiset.mem_filter, Multiset.mem_coe] at hc
    exact ⟨hc.1, hc.2, rfl⟩
  · rintro ⟨hmem, hactive, hbucket⟩
    refine ⟨d.1, ?_, by rw [hbucket]⟩
    rw [Multiset.mem_filter, Multiset.mem_coe]
    exact ⟨hmem, hactive⟩

theorem chainChunks_cons {m : Mem} {c : Nat} {chain : List Nat} (hc : isActive m c = true) :
    chainChunks m (c :: chain) = (c, chunkBucket m c) ::ₘ chainChunks m chain := by
  rw [chainChunks, ← Multiset.cons_coe, 
    Multiset.filter_cons_of_pos (p := fun c => isActive m c = true) _ hc, Multiset.map_cons]
  rfl

theorem chainChunks_congr {m m' : Mem} {chain : List Nat}
    (h : ∀ c ∈ chain, SameHeader m m' c) : chainChunks m' chain = chainChunks m chain := by
  have hfilter : (chain : Multiset Nat).filter (fun c => isActive m' c = true)
      = (chain : Multiset Nat).filter fun c => isActive m c = true := by
    refine Multiset.filter_congr fun c hc => ?_
    rw [(h c (Multiset.mem_coe.mp hc)).isActive_eq]
  rw [chainChunks, chainChunks, hfilter]
  refine Multiset.map_congr rfl fun c hc => ?_
  rw [(h c (Multiset.mem_coe.mp (Multiset.mem_of_mem_filter hc))).bucket]

theorem chainChunks_liveChain (m : Mem) (chain : List Nat) :
    chainChunks m (liveChain m chain) = chainChunks m chain := by
  have hcoe : ((liveChain m chain : List Nat) : Multiset Nat)
      = (chain : Multiset Nat).filter fun c => isActive m c = true := by
    rw [liveChain, Multiset.coe_reverse, Multiset.filter_coe]
    simp
  rw [chainChunks, hcoe, Multiset.filter_filter]
  simp only [and_self]
  rfl

theorem card_chainChunks_le (m : Mem) (chain : List Nat) :
    Multiset.card (chainChunks m chain) ≤ chain.length := by
  rw [chainChunks, Multiset.card_map]
  exact (Multiset.card_le_card (Multiset.filter_le _ _)).trans_eq (Multiset.coe_card chain)

theorem length_liveChain (m : Mem) (chain : List Nat) :
    (liveChain m chain).length = Multiset.card (chainChunks m chain) := by
  rw [liveChain, length_reverse, chainChunks, Multiset.card_map, Multiset.filter_coe,
    Multiset.coe_card]
  simp

/-! ## What is not to be merged -/

/-- An address that the walk does not take for a free chunk above a chunk of the
chain: its flags say so, or a chunk of `held` stands right below it. -/
def Guarded (m : Mem) (held : Multiset (Nat × Nat)) (a : Nat) : Prop :=
  isActive m a = false ∨ ∃ d ∈ held, d.1 + bucketByteSize d.2 = a

/-- The chunks outside the chain are guarded, and so is the end of a region that
is not the end of a page. -/
structure Guards (m : Mem) (regions : List (Nat × Nat)) (held : Multiset (Nat × Nat)) : Prop where
  chunks : ∀ d ∈ held, Guarded m held d.1
  ends : ∀ r ∈ regions, PAGESIZE ∣ r.2 ∨ Guarded m held r.2

/-- Each region starts a page and lies inside it. -/
structure Paged (regions : List (Nat × Nat)) : Prop where
  start : ∀ r ∈ regions, PAGESIZE ∣ r.1
  size : ∀ r ∈ regions, r.1 ≤ r.2 ∧ r.2 ≤ r.1 + PAGESIZE
  dvd : ∀ r ∈ regions, 16 ∣ r.2

theorem PagesOk.paged {pages : List Nat} (h : PagesOk pages) : Paged (pageRegions pages) := by
  have hregion : ∀ r ∈ pageRegions pages, PAGESIZE ∣ r.1 ∧ r.2 = r.1 + PAGESIZE := by
    intro r hr
    obtain ⟨p, hp, rfl⟩ := mem_map.mp hr
    exact ⟨Nat.dvd_of_mod_eq_zero (h.page p hp).2.1, rfl⟩
  have hsize : PAGESIZE = 16 * 256 := rfl
  refine ⟨fun r hr => (hregion r hr).1, fun r hr => ?_, fun r hr => ?_⟩
  · have := (hregion r hr).2
    omega
  · rw [(hregion r hr).2]
    have h16 : 16 ∣ PAGESIZE := ⟨256, hsize⟩
    exact (h16.trans (hregion r hr).1).add h16

theorem Guards.of_not_free {m : Mem} {pages : List Nat} {held : Multiset (Nat × Nat)}
    (hpages : PagesOk pages) (hheld : ∀ d ∈ held, chunkFree m d.1 ≠ byte 'F') :
    Guards m (pageRegions pages) held := by
  refine ⟨fun d hd => Or.inl ?_, fun r hr => Or.inl ?_⟩
  · rw [isActive, decide_eq_false (hheld d hd), Bool.false_and]
  · obtain ⟨p, hp, rfl⟩ := mem_map.mp hr
    exact (Nat.dvd_of_mod_eq_zero (hpages.page p hp).2.1).add (dvd_refl PAGESIZE)

theorem Guarded.congr {m m' : Mem} {held : Multiset (Nat × Nat)} {a : Nat}
    (h : Guarded m held a) (hsame : SameHeader m m' a) : Guarded m' held a := by
  rw [Guarded, hsame.isActive_eq]
  exact h

theorem RegionsOk.disjoint {regions : List (Nat × Nat)} (h : RegionsOk regions)
    {r r' : Nat × Nat} (hr : r ∈ regions) (hr' : r' ∈ regions) (hne : r ≠ r') :
    r.2 ≤ r'.1 ∨ r'.2 ≤ r.1 := by
  have : Std.Symm fun r r' : Nat × Nat => r.2 ≤ r'.1 ∨ r'.2 ≤ r.1 := ⟨fun _ _ => Or.symm⟩
  exact h.apart.forall hr hr' hne

theorem Guards.write {h : HeapManager} {m m' : Mem} {regions : List (Nat × Nat)}
    {held all : Multiset (Nat × Nat)} {d : Nat × Nat} (hguards : Guards m regions held)
    (hpaged : Paged regions) (ht : Tiled h regions all) (hd : d ∈ h.freeChunks + all)
    (hsame : m.SameOutside m' d.1 8) (hkeeps : Keeps m m' held)
    (hsize : ∀ d ∈ held, 16 ≤ bucketByteSize d.2) : Guards m' regions held := by
  refine ⟨fun d hd => ?_, fun r hr => ?_⟩
  · refine (hguards.chunks d hd).congr (sameHeader_of_bytes fun x hlo hhi => ?_)
    have := hsize d hd
    exact hkeeps d hd x hlo (by omega)
  · by_cases hend : PAGESIZE ∣ r.2
    · exact Or.inl hend
    · have hguard := (hguards.ends r hr).resolve_left hend
      refine Or.inr (hguard.congr (sameHeader_of_ne hsame (ht.dvd hd) (hpaged.dvd r hr) ?_))
      obtain ⟨r', hr', hlo, hhi⟩ := ht.tiling.bounds hd
      have hdsize := ht.size_le hd
      have h1 := hpaged.size r hr
      have h2 := hpaged.start r' hr'
      have hne : r'.1 ≠ r.2 := fun heq => hend (heq ▸ h2)
      by_cases heq : r = r'
      · rw [heq]
        omega
      · rcases ht.regionsOk.disjoint hr hr' heq with hapart | hapart <;> omega

/-- The invariant of `_coalesce`. -/
structure Chained (h : HeapManager) (regions : List (Nat × Nat)) (chain : List Nat)
    (held : Multiset (Nat × Nat)) : Prop where
  tiled : Tiled h regions (chainChunks h.mem chain + held)
  aligned : ∀ c ∈ chain, 16 ∣ c
  paged : Paged regions
  guards : Guards h.mem regions held

variable {h : HeapManager} {regions : List (Nat × Nat)} {held : Multiset (Nat × Nat)}
  {chain : List Nat} {c b : Nat}

theorem Chained.held_size (hch : Chained h regions chain held) :
    ∀ d ∈ held, 16 ≤ bucketByteSize d.2 := fun _ hd =>
  hch.tiled.size_le (Tiled.held_mem _ (Multiset.mem_add.mpr (Or.inr hd)))

/-! ## Gathering the free chunks -/

theorem Chained.gather (hch : Chained h regions chain held)
    (hactive : ∀ c ∈ chain, isActive h.mem c = true) (hb : b < BUCKETS) {rest : List Nat}
    (hstack : h.firstChunk b = c :: rest) :
    Chained { h with firstChunk := Function.update h.firstChunk b rest
                     mem := setCoalesce h.mem c (byte 'C') } regions (c :: chain) held ∧
      (∀ d ∈ c :: chain, isActive (setCoalesce h.mem c (byte 'C')) d = true) ∧
      Keeps h.mem (setCoalesce h.mem c (byte 'C')) held := by
  obtain ⟨htake, hfree⟩ := hch.tiled.takeFirst hb hstack
  have hsize := htake.size_cons
  have hdvd : 16 ∣ c := htake.dvd (d := (c, b)) (Tiled.held_mem _ (Multiset.mem_cons_self _ _))
  have hsame := sameOutside_setCoalesce h.mem c (byte 'C')
  have hwrite := htake.write (hsame.mono le_rfl (by omega))
    ((chunkBucket_setCoalesce h.mem c _).trans htake.header_cons)
  have hne : ∀ d ∈ chain, d ≠ c := by
    intro d hd
    have hmem : (d, chunkBucket h.mem d) ∈ chainChunks h.mem chain :=
      mem_chainChunks.2 ⟨hd, hactive d hd, rfl⟩
    exact htake.addr_ne (d := (d, chunkBucket h.mem d))
      (Tiled.held_mem _ (Multiset.mem_add.mpr (Or.inl hmem)))
  have hheader : ∀ d ∈ chain, SameHeader h.mem (setCoalesce h.mem c (byte 'C')) d :=
    fun d hd => sameHeader_of_ne hsame hdvd (hch.aligned d hd) (hne d hd)
  have hnew : isActive (setCoalesce h.mem c (byte 'C')) c = true :=
    isActive_iff.2 ⟨(chunkFree_setCoalesce h.mem c _).trans hfree, by simp⟩
  have hbucket : chunkBucket (setCoalesce h.mem c (byte 'C')) c = b :=
    (chunkBucket_setCoalesce h.mem c _).trans htake.header_cons
  have hkeeps : Keeps h.mem (setCoalesce h.mem c (byte 'C')) held :=
    (htake.keeps (hsame.mono le_rfl (by omega))).mono fun _ hd =>
      Multiset.mem_add.mpr (Or.inr hd)
  have hguards := hch.guards.write hch.paged htake
    (Tiled.held_mem _ (Multiset.mem_cons_self (c, b) _)) hsame hkeeps hch.held_size
  refine ⟨⟨?_, ?_, hch.paged, hguards⟩, ?_, hkeeps⟩
  · dsimp only
    rw [chainChunks_cons hnew, chainChunks_congr hheader, hbucket, Multiset.cons_add]
    exact hwrite
  · intro d hd
    rcases mem_cons.mp hd with rfl | hd
    · exact hdvd
    · exact hch.aligned d hd
  · intro d hd
    rcases mem_cons.mp hd with rfl | hd
    · exact hnew
    · rw [(hheader d hd).isActive_eq]
      exact hactive d hd

theorem gatherStack_spec {l : List Nat} (hch : Chained h regions chain held)
    (hactive : ∀ c ∈ chain, isActive h.mem c = true) (hb : b < BUCKETS)
    (hstack : h.firstChunk b = l) :
    ∃ m' chain', gatherStack l h.mem chain = .ok ([], m', chain') ∧
      Chained { h with firstChunk := Function.update h.firstChunk b [], mem := m' } regions
        chain' held ∧
      (∀ c ∈ chain', isActive m' c = true) ∧ Keeps h.mem m' held := by
  induction l generalizing h chain with
  | nil =>
    refine ⟨h.mem, chain, rfl, ?_, hactive, Keeps.refl _ _⟩
    rw [← hstack, Function.update_eq_self]
    exact hch
  | cons c rest ih =>
    have hne : c ≠ 0 := hch.tiled.stack_ne_zero hb c (by simp [hstack])
    have hfree := (hch.tiled.takeFirst hb hstack).2
    obtain ⟨hch', hactive', hkeeps⟩ := hch.gather hactive hb hstack
    obtain ⟨m', chain', heq, hch'', hactive'', hkeeps'⟩ :=
      ih hch' hactive' (Function.update_self _ _ _)
    refine ⟨m', chain', ?_, ?_, hactive'', hkeeps.trans hkeeps'⟩
    · rw [gatherStack, if_neg hne, if_pos hfree]
      exact heq
    · rw [Function.update_idem] at hch''
      exact hch''

/-- The first loop of `_coalesce`: the first `n` free stacks are empty, and
their chunks form the chain. -/
theorem gather_spec (htiled : Tiled h regions held) (hpaged : Paged regions)
    (hguards : Guards h.mem regions held) {n : Nat} (hn : n ≤ BUCKETS) :
    ∃ h' chain, (List.range n).foldlM gatherBucket (h, []) = .ok (h', chain) ∧
      Chained h' regions chain held ∧ (∀ c ∈ chain, isActive h'.mem c = true) ∧
      Keeps h.mem h'.mem held ∧ (∀ i < n, h'.firstChunk i = []) ∧ h'.pages = h.pages := by
  induction n with
  | zero =>
    refine ⟨h, [], rfl, ⟨?_, by simp, hpaged, hguards⟩, by simp, Keeps.refl _ _, by simp, rfl⟩
    rw [chainChunks_nil, zero_add]
    exact htiled
  | succ n ih =>
    obtain ⟨h₁, chain1, hfold, hch, hactive, hkeeps, hempty, hpages⟩ := ih (by omega)
    obtain ⟨m', chain', hgather, hch', hactive', hkeeps'⟩ :=
      gatherStack_spec hch hactive (show n < BUCKETS by omega) rfl
    refine ⟨{ h₁ with firstChunk := Function.update h₁.firstChunk n [], mem := m' }, chain', ?_,
      hch', hactive', hkeeps.trans hkeeps', ?_, hpages⟩
    · rw [range_succ, foldlM_append, hfold]
      simp only [Bind.bind, Except.bind, foldlM_cons, foldlM_nil, gatherBucket, hgather,
        Pure.pure, Except.pure]
    · intro i hi
      by_cases heq : i = n
      · subst heq
        exact Function.update_self _ _ _
      · dsimp only
        rw [Function.update_of_ne heq]
        exact hempty i (by omega)

theorem freeChunks_eq_zero (hempty : ∀ i < BUCKETS, h.firstChunk i = []) : h.freeChunks = 0 := by
  rw [HeapManager.freeChunks, Buckets.content]
  refine Finset.sum_eq_zero fun i hi => ?_
  rw [hempty i (Finset.mem_range.mp hi), Buckets.listContent_nil]

/-! ## Merging -/

/-- What one merge does to the headers: `buddy` is cleared, and `chunk` has the
new bucket. -/
def mergeHeaders (m : Mem) (chunk buddy newBucket : Nat) : Mem :=
  setBucket (setCoalesce (setFree m buddy 0) buddy 0) chunk newBucket

section MergeHeaders

variable {m : Mem} {chunk buddy newBucket : Nat}

theorem sameOutside_clear (m : Mem) (buddy : Nat) :
    m.SameOutside (setCoalesce (setFree m buddy 0) buddy 0) buddy 8 :=
  (sameOutside_setFree m buddy 0).trans (sameOutside_setCoalesce _ buddy 0)

theorem mergeHeaders_chunk (hchunk : 16 ∣ chunk) (hbuddy : 16 ∣ buddy) (hne : chunk ≠ buddy)
    (hb : newBucket < BUCKETS) :
    isActive (mergeHeaders m chunk buddy newBucket) chunk = isActive m chunk ∧
      chunkBucket (mergeHeaders m chunk buddy newBucket) chunk = newBucket := by
  have hclear := sameHeader_of_ne (sameOutside_clear m buddy) hbuddy hchunk hne
  refine ⟨?_, chunkBucket_setBucket _ chunk hb⟩
  rw [isActive, mergeHeaders, chunkFree_setBucket, chunkCoalesce_setBucket, hclear.free,
    hclear.coalesce, isActive]

theorem mergeHeaders_other {d : Nat} (hchunk : 16 ∣ chunk) (hbuddy : 16 ∣ buddy) (hd : 16 ∣ d)
    (hne : d ≠ chunk) (hne' : d ≠ buddy) :
    SameHeader m (mergeHeaders m chunk buddy newBucket) d :=
  (sameHeader_of_ne (sameOutside_clear m buddy) hbuddy hd hne').trans
    (sameHeader_of_ne (sameOutside_setBucket _ chunk newBucket) hchunk hd hne)

theorem mergeHeaders_buddy (hchunk : 16 ∣ chunk) (hbuddy : 16 ∣ buddy) (hne : buddy ≠ chunk) :
    isActive (mergeHeaders m chunk buddy newBucket) buddy = false := by
  have hsame := sameHeader_of_ne (sameOutside_setBucket
    (setCoalesce (setFree m buddy 0) buddy 0) chunk newBucket) hchunk hbuddy hne
  have hzero : byte 'F' ≠ 0 := by decide
  rw [mergeHeaders, hsame.isActive_eq, isActive, chunkFree_setCoalesce, chunkFree_setFree]
  simp [hzero.symm]

end MergeHeaders

theorem chainChunks_merge {m : Mem} {chunk buddy newBucket : Nat}
    {R : Multiset (Nat × Nat)} (haligned : ∀ c ∈ chain, 16 ∣ c)
    (hnodup : ((chainChunks m chain).map Prod.fst).Nodup)
    (hchunk : chunk ∈ chain) (hbuddy : buddy ∈ chain) (hne : chunk ≠ buddy)
    (hb : newBucket < BUCKETS)
    (hR : chainChunks m chain
      = (chunk, chunkBucket m chunk) ::ₘ (buddy, chunkBucket m buddy) ::ₘ R) :
    chainChunks (mergeHeaders m chunk buddy newBucket) chain = (chunk, newBucket) ::ₘ R := by
  have hdc := haligned chunk hchunk
  have hdb := haligned buddy hbuddy
  obtain ⟨hsame, hbucket⟩ := mergeHeaders_chunk (m := m) hdc hdb hne hb
  -- The active addresses before the merge, without the buddy, are those after it.
  have hfilter : (chain : Multiset Nat).filter
        (fun c => isActive (mergeHeaders m chunk buddy newBucket) c = true)
      = ((chain : Multiset Nat).filter fun c => isActive m c = true).filter (· ≠ buddy) := by
    rw [Multiset.filter_filter]
    refine Multiset.filter_congr fun d hd => ?_
    by_cases hdbuddy : d = buddy
    · subst hdbuddy
      simp [mergeHeaders_buddy hdc hdb hne.symm]
    · by_cases hdchunk : d = chunk
      · subst hdchunk
        simp [hsame, hdbuddy]
      · rw [(mergeHeaders_other hdc hdb (haligned d (Multiset.mem_coe.mp hd)) hdchunk
          hdbuddy).isActive_eq]
        simp [hdbuddy]
  have haddr : (chainChunks m chain).map Prod.fst
      = (chain : Multiset Nat).filter fun c => isActive m c = true := by
    rw [chainChunks, Multiset.map_map]
    exact Multiset.map_id' _
  have hsplit : ((chain : Multiset Nat).filter fun c => isActive m c = true)
      = chunk ::ₘ buddy ::ₘ R.map Prod.fst := by
    rw [← haddr, hR, Multiset.map_cons, Multiset.map_cons]
  have hnodup' : (chunk ::ₘ buddy ::ₘ R.map Prod.fst).Nodup := by
    rw [← hsplit, ← haddr]
    exact hnodup
  obtain ⟨hc1, hc2⟩ := Multiset.nodup_cons.mp hnodup'
  have hc3 := (Multiset.nodup_cons.mp hc2).1
  have hrest : ∀ a ∈ R.map Prod.fst, a ≠ buddy := fun a ha heq => hc3 (heq ▸ ha)
  rw [chainChunks, hfilter, hsplit, Multiset.filter_cons_of_pos (p := (· ≠ buddy)) _ hne,
    Multiset.filter_cons_of_neg (p := (· ≠ buddy)) _ (by simp),
    Multiset.filter_eq_self.mpr hrest, Multiset.map_cons, hbucket, Multiset.map_map]
  congr 1
  -- The other chunks keep their buckets.
  calc R.map ((fun c => (c, chunkBucket (mergeHeaders m chunk buddy newBucket) c)) ∘ Prod.fst)
      = R.map id := by
        refine Multiset.map_congr rfl fun d hd => ?_
        have hmem : d ∈ chainChunks m chain := by
          rw [hR]
          exact Multiset.mem_cons_of_mem (Multiset.mem_cons_of_mem hd)
        obtain ⟨hd1, -, hd3⟩ := mem_chainChunks.1 hmem
        have hdaddr : d.1 ∈ R.map Prod.fst := Multiset.mem_map_of_mem _ hd
        have hdchunk : d.1 ≠ chunk := by
          intro heq
          refine hc1 (Multiset.mem_cons_of_mem ?_)
          rwa [heq] at hdaddr
        have hother : SameHeader m (mergeHeaders m chunk buddy newBucket) d.1 :=
          mergeHeaders_other hdc hdb (haligned d.1 hd1) hdchunk (hrest d.1 hdaddr)
        rw [Function.comp_apply, hother.bucket, hd3, id]
    _ = R := Multiset.map_id R

theorem mergeBuddy_eq_some {m m' : Mem} {chunk : Nat} (hm : mergeBuddy m chunk = some m') :
    ∃ buddy newBucket, buddy = chunk + bucketByteSize (chunkBucket m chunk) ∧
      isActive m chunk = true ∧ isActive m buddy = true ∧
      alignPageDown buddy = alignPageDown chunk ∧ newBucket < BUCKETS ∧
      bucketByteSize newBucket
        = bucketByteSize (chunkBucket m chunk) + bucketByteSize (chunkBucket m buddy) ∧
      m' = mergeHeaders m chunk buddy newBucket := by
  rw [mergeBuddy] at hm
  split at hm
  · simp at hm
  · rename_i h1
    simp only at hm
    split at hm
    · simp at hm
    · rename_i h2
      split at hm
      · simp at hm
      · rename_i h3
        split at hm
        · simp at hm
        · rename_i h4
          push Not at h1 h2 h3 h4
          simp only [Option.some.injEq] at hm
          exact ⟨_, _, rfl, h1, h3, h2, h4.1, h4.2, hm.symm⟩

theorem not_dvd_of_same_page {x y z : Nat} (halign : alignPageDown y = alignPageDown x)
    (hlo : z ≤ x) (hz : PAGESIZE ∣ z) (hle : x < y) : ¬ PAGESIZE ∣ y := by
  unfold alignPageDown PAGESIZE at *
  omega

/-- No chunk of `held` stands right below what the walk takes for a free chunk
above a chunk of the chain. -/
theorem Chained.not_guarded (hch : Chained h regions chain held) {x y b : Nat}
    (hx : (x, b) ∈ chainChunks h.mem chain) (hy : y = x + bucketByteSize b)
    (hactive : isActive h.mem y = true) : ¬ Guarded h.mem held y := by
  rintro (hno | ⟨d, hd, hend⟩)
  · rw [hactive] at hno
    exact Bool.noConfusion hno
  · have hnodup := hch.tiled.apart.1
    rw [Multiset.map_add, Multiset.map_add] at hnodup
    have hdisjoint := (Multiset.nodup_add.mp (Multiset.nodup_add.mp hnodup).2.1).2.2
    have hne : x ≠ d.1 := fun heq => (Multiset.disjoint_left.mp hdisjoint)
      (Multiset.mem_map.mpr ⟨(x, b), hx, rfl⟩) (Multiset.mem_map.mpr ⟨d, hd, heq.symm⟩)
    have hxmem : (x, b) ∈ h.freeChunks + (chainChunks h.mem chain + held) :=
      Tiled.held_mem _ (Multiset.mem_add.mpr (Or.inl hx))
    have hdmem : d ∈ h.freeChunks + (chainChunks h.mem chain + held) :=
      Tiled.held_mem _ (Multiset.mem_add.mpr (Or.inr hd))
    have hxsize := hch.tiled.size_le hxmem
    have hdsize := hch.tiled.size_le hdmem
    have hapart := hch.tiled.apart.2 (x, b) hxmem d hdmem hne
    dsimp only at hxsize hapart
    omega

/-- The region of a chunk of the chain does not end below a chunk that the walk
takes for a free one. -/
theorem Chained.not_end (hch : Chained h regions chain held) {x y b : Nat}
    (hx : (x, b) ∈ chainChunks h.mem chain) (hy : y = x + bucketByteSize b)
    (hactive : isActive h.mem y = true) (halign : alignPageDown y = alignPageDown x)
    {r : Nat × Nat} (hr : r ∈ regions) (hlo : r.1 ≤ x) (hhi : y ≤ r.2) : y < r.2 := by
  have hmem : (x, b) ∈ h.freeChunks + (chainChunks h.mem chain + held) :=
    Tiled.held_mem _ (Multiset.mem_add.mpr (Or.inl hx))
  have hsize := hch.tiled.size_le hmem
  dsimp only at hsize
  by_contra hno
  have heq : r.2 = y := by omega
  rcases hch.guards.ends r hr with hend | hguard
  · rw [heq] at hend
    exact not_dvd_of_same_page halign hlo (hch.paged.start r hr) (by omega) hend
  · rw [heq] at hguard
    exact hch.not_guarded hx hy hactive hguard

theorem mergeBuddy_spec {m' : Mem} {chunk : Nat} (hch : Chained h regions chain held)
    (hempty : h.freeChunks = 0) (hchunk : chunk ∈ chain)
    (hm : mergeBuddy h.mem chunk = some m') :
    Chained { h with mem := m' } regions chain held ∧ Keeps h.mem m' held ∧
      Multiset.card (chainChunks m' chain) < Multiset.card (chainChunks h.mem chain) ∧
      chunkBucket h.mem chunk < chunkBucket m' chunk ∧ chunkBucket m' chunk < BUCKETS := by
  obtain ⟨buddy, newBucket, hbuddyEq, hactive, hactive', halign, hnew, hsize, rfl⟩ :=
    mergeBuddy_eq_some hm
  have htiled := hch.tiled
  have hTmem : ∀ d ∈ chainChunks h.mem chain, d ∈ h.freeChunks + (chainChunks h.mem chain + held) :=
    fun d hd => Tiled.held_mem _ (Multiset.mem_add.mpr (Or.inl hd))
  have hcmem : (chunk, chunkBucket h.mem chunk) ∈ chainChunks h.mem chain :=
    mem_chainChunks.2 ⟨hchunk, hactive, rfl⟩
  have hcsize := htiled.size_le (hTmem _ hcmem)
  dsimp only at hcsize
  have hne : chunk ≠ buddy := by omega
  -- The buddy is a chunk of the tiling, and its flags say that it is in the chain.
  have hbmem : (buddy, chunkBucket h.mem buddy) ∈ chainChunks h.mem chain := by
    obtain ⟨r, hr, h1, h2, h3⟩ := htiled.tiling.next (hTmem _ hcmem)
    rw [← hbuddyEq] at h2 h3
    obtain ⟨b', hb'⟩ := h3 (hch.not_end hcmem hbuddyEq hactive' halign hr h1 h2)
    have hheader : chunkBucket h.mem buddy = b' := htiled.header (buddy, b') hb'
    rw [hempty, zero_add, Multiset.mem_add] at hb'
    rw [hheader]
    rcases hb' with hb' | hb'
    · exact hb'
    · exact absurd (hch.guards.chunks _ hb') (hch.not_guarded hcmem hbuddyEq hactive')
  have hbuddy : buddy ∈ chain := (mem_chainChunks.1 hbmem).1
  have hdc := hch.aligned chunk hchunk
  have hdb := hch.aligned buddy hbuddy
  obtain ⟨R1, hR1⟩ := Multiset.exists_cons_of_mem hcmem
  have hbmem1 : (buddy, chunkBucket h.mem buddy) ∈ R1 := by
    rw [hR1, Multiset.mem_cons, Prod.mk.injEq] at hbmem
    exact hbmem.resolve_left fun heq => hne heq.1.symm
  obtain ⟨R, rfl⟩ := Multiset.exists_cons_of_mem hbmem1
  have hnodup : ((chainChunks h.mem chain).map Prod.fst).Nodup := by
    have hall := htiled.apart.1
    rw [Multiset.map_add, Multiset.map_add] at hall
    exact (Multiset.nodup_add.mp (Multiset.nodup_add.mp hall).2.1).1
  have hchain := chainChunks_merge hch.aligned hnodup hchunk hbuddy hne hnew hR1
  obtain ⟨-, hbucket⟩ := mergeHeaders_chunk (m := h.mem) hdc hdb hne hnew
  rw [hR1, Multiset.cons_add, Multiset.cons_add] at htiled
  -- The chunks other than the two keep their bytes.
  have hswap : Tiled h regions
      ((buddy, chunkBucket h.mem buddy) ::ₘ (chunk, chunkBucket h.mem chunk) ::ₘ (R + held)) := by
    rw [Multiset.cons_swap]
    exact htiled
  have hbsize := hswap.size_cons
  have hkeepsClear := hswap.keeps ((sameOutside_clear h.mem buddy).mono le_rfl (by omega))
  have hkeepsSet := htiled.keeps ((sameOutside_setBucket
    (setCoalesce (setFree h.mem buddy 0) buddy 0) chunk newBucket).mono le_rfl (by omega))
  have hkeeps : Keeps h.mem (mergeHeaders h.mem chunk buddy newBucket) (R + held) :=
    (hkeepsClear.mono fun d hd => Multiset.mem_cons_of_mem hd).trans
      (hkeepsSet.mono fun d hd => Multiset.mem_cons_of_mem hd)
  have hother : ∀ d ∈ R + held, chunkBucket (mergeHeaders h.mem chunk buddy newBucket) d.1 = d.2 := by
    intro d hd
    have hd' : d ∈ h.freeChunks + (chunk, chunkBucket h.mem chunk) ::ₘ
        (buddy, chunkBucket h.mem buddy) ::ₘ (R + held) :=
      Tiled.held_mem _ (Multiset.mem_cons_of_mem (Multiset.mem_cons_of_mem hd))
    have hdsize := htiled.size_le hd'
    have hsame : SameHeader h.mem (mergeHeaders h.mem chunk buddy newBucket) d.1 :=
      sameHeader_of_bytes fun x hlo hhi => hkeeps d hd x hlo (by omega)
    exact hsame.bucket.trans (htiled.header d hd')
  have hkeepsHeld : Keeps h.mem (mergeHeaders h.mem chunk buddy newBucket) held :=
    hkeeps.mono fun d hd => Multiset.mem_add.mpr (Or.inr hd)
  have htiling : Tiling bucketByteSize regions
      ((chunk, newBucket) ::ₘ (R + held)) := by
    have htwo : h.freeChunks + (chunk, chunkBucket h.mem chunk) ::ₘ
        (buddy, chunkBucket h.mem buddy) ::ₘ (R + held)
        = (chunk, chunkBucket h.mem chunk) ::ₘ
          (chunk + bucketByteSize (chunkBucket h.mem chunk), chunkBucket h.mem buddy) ::ₘ
            (R + held) := by
      rw [hempty, zero_add, ← hbuddyEq]
    refine htiled.tiling.merge htiled.apart.1 htwo (fun r hr h1 h2 => ?_) hsize
    rw [← hbuddyEq] at h2 ⊢
    exact hch.not_end hcmem hbuddyEq hactive' halign hr h1 h2
  -- Neither header is at the end of a region.
  have hguards : Guards (mergeHeaders h.mem chunk buddy newBucket) regions held := by
    have hclear := hch.guards.write hch.paged hch.tiled (hTmem _ hbmem)
      (sameOutside_clear h.mem buddy) (hkeepsClear.mono fun d hd => by simp [hd]) hch.held_size
    exact hclear.write hch.paged hch.tiled (hTmem _ hcmem) (sameOutside_setBucket _ chunk newBucket)
      (hkeepsSet.mono fun d hd => by simp [hd]) hch.held_size
  refine ⟨⟨⟨htiled.regionsOk, ?_, ?_, ?_, ?_⟩, hch.aligned, hch.paged, hguards⟩, hkeepsHeld,
    ?_, ?_, ?_⟩
  · change Tiling bucketByteSize _ (h.freeChunks + (chainChunks _ chain + held))
    rw [hempty, zero_add, hchain, Multiset.cons_add]
    exact htiling
  · change ∀ d ∈ h.freeChunks + (chainChunks _ chain + held), d.2 < BUCKETS
    rw [hempty, zero_add, hchain, Multiset.cons_add]
    intro d hd
    rcases Multiset.mem_cons.mp hd with rfl | hd
    · exact hnew
    · exact htiled.bucket_lt d
        (Tiled.held_mem _ (Multiset.mem_cons_of_mem (Multiset.mem_cons_of_mem hd)))
  · change ∀ d ∈ h.freeChunks + (chainChunks _ chain + held), chunkBucket _ d.1 = d.2
    rw [hempty, zero_add, hchain, Multiset.cons_add]
    intro d hd
    rcases Multiset.mem_cons.mp hd with rfl | hd
    · exact hbucket
    · exact hother d hd
  · change ∀ d ∈ h.freeChunks, _
    rw [hempty]
    simp
  · rw [hchain, hR1]
    simp
  · rw [hbucket]
    by_contra hge
    have hb : chunkBucket h.mem chunk < BUCKETS :=
      hch.tiled.bucket_lt (chunk, chunkBucket h.mem chunk) (hTmem _ hcmem)
    have := bucketByteSize_le (not_lt.mp hge) hb
    omega
  · rw [hbucket]
    exact hnew

/-- What a part of the merging does: the invariant stays, the chunks of `held`
keep their bytes, and the chain gets shorter exactly when a merge happened. -/
structure Merged (h : HeapManager) (regions : List (Nat × Nat)) (chain : List Nat)
    (held : Multiset (Nat × Nat)) (m' : Mem) (merged : Bool) : Prop where
  chained : Chained { h with mem := m' } regions chain held
  keeps : Keeps h.mem m' held
  card_le : Multiset.card (chainChunks m' chain) ≤ Multiset.card (chainChunks h.mem chain)
  card_lt : merged = true →
    Multiset.card (chainChunks m' chain) < Multiset.card (chainChunks h.mem chain)

/-- The walk at one chunk.  A merge raises the bucket of the chunk, so it
ends. -/
theorem mergeChunk_spec {chunk : Nat}
    (hch : Chained h regions chain held) (hempty : h.freeChunks = 0)
    (hchunk : chunk ∈ chain) {fuel : Nat} (hfuel : BUCKETS - chunkBucket h.mem chunk < fuel) :
    ∃ m' merged, mergeChunk fuel h.mem chunk = some (m', merged) ∧
      Merged h regions chain held m' merged := by
  induction fuel generalizing h with
  | zero => omega
  | succ fuel ih =>
    rw [mergeChunk]
    cases hm : mergeBuddy h.mem chunk with
    | none => exact ⟨h.mem, false, rfl, hch, Keeps.refl _ _, le_rfl, by simp⟩
    | some m1 =>
      obtain ⟨hch1, hkeeps, hcard, hgrow, hlt⟩ := mergeBuddy_spec hch hempty hchunk hm
      have hfuel1 : BUCKETS - chunkBucket m1 chunk < fuel := by omega
      obtain ⟨m', merged, heq, hmerged⟩ :=
        ih (h := { h with mem := m1 }) hch1 hempty hfuel1
      have hle := hmerged.card_le
      dsimp only at hle heq
      refine ⟨m', true, by simp [heq], hmerged.chained, hkeeps.trans hmerged.keeps, ?_, ?_⟩
      · omega
      · intro _
        omega

theorem mergeChain_spec {l : List Nat} (hch : Chained h regions chain held) (hempty : h.freeChunks = 0)
    (hl : ∀ c ∈ l, c ∈ chain) :
    ∃ m' merged, mergeChain h.mem l = some (m', merged) ∧
      Merged h regions chain held m' merged := by
  induction l generalizing h with
  | nil => exact ⟨h.mem, false, rfl, hch, Keeps.refl _ _, le_rfl, by simp⟩
  | cons chunk rest ih =>
    obtain ⟨m1, merged1, heq1, hmerged1⟩ := mergeChunk_spec hch hempty
      (hl chunk (by simp)) (show BUCKETS - chunkBucket h.mem chunk < BUCKETS + 1 by omega)
    obtain ⟨m2, merged2, heq2, hmerged2⟩ := ih (h := { h with mem := m1 }) hmerged1.chained hempty
      fun c hc => hl c (mem_cons_of_mem _ hc)
    have hle1 := hmerged1.card_le
    have hle2 := hmerged2.card_le
    dsimp only at hle2 heq2
    refine ⟨m2, merged1 || merged2, ?_, hmerged2.chained, hmerged1.keeps.trans hmerged2.keeps,
      hle2.trans hle1, ?_⟩
    · rw [mergeChain, heq1]
      simp [heq2]
    · intro hor
      rcases Bool.or_eq_true _ _ |>.mp hor with hm | hm
      · have := hmerged1.card_lt hm
        omega
      · have := hmerged2.card_lt hm
        dsimp only at this
        omega

theorem Chained.liveChain {m : Mem}
    (hch : Chained { h with mem := m } regions chain held) :
    Chained { h with mem := m } regions (HeapManager.liveChain m chain) held where
  tiled := by
    dsimp only
    rw [chainChunks_liveChain]
    exact hch.tiled
  aligned := by
    intro c hc
    rw [HeapManager.liveChain, mem_reverse, mem_filter] at hc
    exact hch.aligned c hc.1
  paged := hch.paged
  guards := hch.guards

theorem isActive_of_mem_liveChain {m : Mem} (hc : c ∈ liveChain m chain) :
    isActive m c = true := by
  rw [liveChain, mem_reverse, mem_filter] at hc
  exact hc.2

/-- The merging loop ends, and afterwards every chunk of the chain stands for
itself. -/
theorem mergeLoop_spec (hch : Chained h regions chain held) (hempty : h.freeChunks = 0) {fuel : Nat}
    (hfuel : chain.length < fuel) :
    ∃ m' chain', mergeLoop fuel h.mem chain = some (m', chain') ∧
      Chained { h with mem := m' } regions chain' held ∧
      (∀ c ∈ chain', isActive m' c = true) ∧ Keeps h.mem m' held := by
  induction fuel generalizing h chain with
  | zero => omega
  | succ fuel ih =>
    obtain ⟨m1, merged, heq, hmerged⟩ := mergeChain_spec hch hempty (fun c hc => hc)
    have hlive := hmerged.chained.liveChain
    rw [mergeLoop, heq]
    cases merged with
    | false =>
      exact ⟨m1, _, rfl, hlive, fun c hc => isActive_of_mem_liveChain hc, hmerged.keeps⟩
    | true =>
      have hlt := hmerged.card_lt rfl
      have hle := card_chainChunks_le h.mem chain
      have hlen := length_liveChain m1 chain
      obtain ⟨m', chain', heq', hch', hactive, hkeeps⟩ :=
        ih (h := { h with mem := m1 }) hlive hempty (by omega)
      exact ⟨m', chain', heq', hch', hactive, hmerged.keeps.trans hkeeps⟩

/-! ## Restoring the free stacks -/

theorem restore_eq (h : HeapManager) (c : Nat) : restore h c =
    HeapManager.pushBucket { h with mem := setCoalesce h.mem c 0 } c (chunkBucket h.mem c) := by
  rw [restore]
  simp only [chunkBucket_setCoalesce]

theorem sameOutside_restore (h : HeapManager) (c : Nat) :
    h.mem.SameOutside (restore h c).mem c 8 := by
  have hcoalesce := sameOutside_setCoalesce h.mem c 0
  rw [restore_eq, HeapManager.pushBucket]
  split
  · exact hcoalesce
  · exact hcoalesce.trans (sameOutside_markFree _ c)

theorem Chained.ne_head {rest : List Nat} (hch : Chained h regions (c :: rest) held)
    (hactive : ∀ d ∈ c :: rest, isActive h.mem d = true) : ∀ d ∈ rest, d ≠ c := by
  intro d hd
  have htiled := hch.tiled
  rw [chainChunks_cons (hactive c mem_cons_self), Multiset.cons_add] at htiled
  have hmem : (d, chunkBucket h.mem d) ∈ chainChunks h.mem rest :=
    mem_chainChunks.2 ⟨hd, hactive d (mem_cons_of_mem _ hd), rfl⟩
  exact htiled.addr_ne (d := (d, chunkBucket h.mem d))
    (Tiled.held_mem _ (Multiset.mem_add.mpr (Or.inl hmem)))

theorem Chained.sameHeader_restore {rest : List Nat} (hch : Chained h regions (c :: rest) held)
    (hactive : ∀ d ∈ c :: rest, isActive h.mem d = true) :
    ∀ d ∈ rest, SameHeader h.mem (restore h c).mem d := fun d hd =>
  sameHeader_of_ne (sameOutside_restore h c) (hch.aligned c mem_cons_self)
    (hch.aligned d (mem_cons_of_mem _ hd)) (hch.ne_head hactive d hd)

theorem restore_spec {rest : List Nat} (hch : Chained h regions (c :: rest) held)
    (hactive : ∀ d ∈ c :: rest, isActive h.mem d = true) :
    Chained (restore h c) regions rest held ∧
      (∀ d ∈ rest, isActive (restore h c).mem d = true) ∧
      Keeps h.mem (restore h c).mem held ∧ (restore h c).pages = h.pages := by
  have hc := hactive c (by simp)
  have htiled := hch.tiled
  rw [chainChunks_cons hc, Multiset.cons_add] at htiled
  have hsize := htiled.size_cons
  have hdvd := hch.aligned c (by simp)
  have hcoalesce := sameOutside_setCoalesce h.mem c 0
  have hwrite := htiled.write (hcoalesce.mono le_rfl (by omega)) (chunkBucket_setCoalesce h.mem c 0)
  have hpush := hwrite.pushBucket
  have hpushSame := hwrite.pushBucket_sameOutside
  have hrestore := restore_eq h c
  have hsame := sameOutside_restore h c
  have hheader := hch.sameHeader_restore hactive
  have hkeeps : Keeps h.mem (restore h c).mem held :=
    (htiled.keeps (hsame.mono le_rfl (by omega))).mono fun d hd =>
      Multiset.mem_add.mpr (Or.inr hd)
  have hguards := hch.guards.write hch.paged htiled
    (Tiled.held_mem _ (Multiset.mem_cons_self (c, chunkBucket h.mem c) _)) hsame hkeeps
    hch.held_size
  refine ⟨⟨?_, fun d hd => hch.aligned d (by simp [hd]), hch.paged, hguards⟩, ?_, hkeeps, ?_⟩
  · rw [chainChunks_congr hheader, hrestore]
    exact hpush
  · intro d hd
    rw [(hheader d hd).isActive_eq]
    exact hactive d (by simp [hd])
  · rw [hrestore, Tiled.pushBucket_pages]

theorem foldl_restore_spec (hch : Chained h regions chain held)
    (hactive : ∀ d ∈ chain, isActive h.mem d = true) :
    Tiled (chain.foldl restore h) regions held ∧ Keeps h.mem (chain.foldl restore h).mem held ∧
      (chain.foldl restore h).pages = h.pages := by
  induction chain generalizing h with
  | nil =>
    have htiled := hch.tiled
    rw [chainChunks_nil, zero_add] at htiled
    exact ⟨htiled, Keeps.refl _ _, rfl⟩
  | cons c rest ih =>
    obtain ⟨hch', hactive', hkeeps, hpages⟩ := restore_spec hch hactive
    obtain ⟨htiled, hkeeps', hpages'⟩ := ih hch' hactive'
    exact ⟨htiled, hkeeps.trans hkeeps', hpages'.trans hpages⟩

/-- The parts of `_coalesce`: the merging ends with a chain of chunks that stand
for themselves, and what is returned is the heap with this chain pushed back. -/
theorem coalesce_parts (htiled : Tiled h regions held) (hpaged : Paged regions)
    (hguards : Guards h.mem regions held) :
    ∃ (h₁ : HeapManager) (chain : List Nat) (m' : Mem) (chain' : List Nat),
      mergeLoop (chain.length + 1) h₁.mem chain = some (m', chain') ∧
      h.coalesce = .ok (chain'.foldl restore { h₁ with mem := m' }) ∧
      Chained { h₁ with mem := m' } regions chain' held ∧
      (∀ c ∈ chain', isActive m' c = true) ∧ h₁.freeChunks = 0 ∧
      Keeps h.mem m' held ∧ h₁.pages = h.pages := by
  obtain ⟨h₁, chain, hgather, hch, hactive, hkeeps, hempty, hpages⟩ :=
    gather_spec htiled hpaged hguards (le_refl BUCKETS)
  obtain ⟨m', chain', hmerge, hch', hactive', hkeeps'⟩ :=
    mergeLoop_spec hch (freeChunks_eq_zero hempty) (Nat.lt_succ_self _)
  refine ⟨h₁, chain, m', chain', hmerge, ?_, hch', hactive', freeChunks_eq_zero hempty,
    hkeeps.trans hkeeps', hpages⟩
  simp only [HeapManager.coalesce, hgather, Bind.bind, Except.bind, hmerge]

/-- `_coalesce` returns, keeps the tiling, and does not touch the chunks outside
the free stacks, as long as these are guarded. -/
theorem coalesce_guarded (htiled : Tiled h regions held) (hpaged : Paged regions)
    (hguards : Guards h.mem regions held) :
    ∃ h', h.coalesce = .ok h' ∧ Tiled h' regions held ∧ Keeps h.mem h'.mem held ∧
      h'.pages = h.pages := by
  obtain ⟨h₁, chain, m', chain', -, heq, hch, hactive, -, hkeeps, hpages⟩ :=
    coalesce_parts htiled hpaged hguards
  obtain ⟨htiled', hkeeps', hpages'⟩ := foldl_restore_spec hch hactive
  exact ⟨_, heq, htiled', hkeeps.trans hkeeps', hpages'.trans hpages⟩

/-- `_coalesce` returns, keeps the tiling, and does not touch the allocated
chunks. -/
theorem coalesce_spec (hok : HeapOk h held)
    (hheld : ∀ d ∈ held, chunkFree h.mem d.1 ≠ byte 'F') :
    ∃ h', h.coalesce = .ok h' ∧ HeapOk h' held ∧ Keeps h.mem h'.mem held ∧
      h'.pages = h.pages := by
  obtain ⟨h', hco, htiled, hkeeps, hpages⟩ := coalesce_guarded hok.tiled hok.pages.paged
    (Guards.of_not_free hok.pages hheld)
  refine ⟨h', hco, ⟨?_, ?_⟩, hkeeps, hpages⟩
  · rw [hpages]
    exact hok.pages
  · rw [hpages]
    exact htiled

end Hostboot.HeapMgr
