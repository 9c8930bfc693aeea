import Mathlib
import Hostboot.HeapMgr.Chunks

/-!
# Allocating, freeing and reallocating

A client of the small heap owns the data area of a chunk.  `LiveOk m c b sz`
is what the heap promises about such a chunk: the header says allocated, the
last byte is the validation byte, and `sz` bytes fit between the two.

`allocate_spec`, `free_spec` and `realloc_spec` say what the three operations
do to the tiling and to the other live chunks, and that they do not stop: an
allocation that may ask for a page returns, and so does the free of a live
chunk.
-/

namespace Hostboot.HeapMgr

open Hostboot.Lib Hostboot.Util

/-- The pages of the small heap as regions. -/
def pageRegions (pages : List Nat) : List (Nat × Nat) := pages.map fun p => (p, p + PAGESIZE)

/-- The pages are different, page-aligned, not null and below 4 GB. -/
structure PagesOk (pages : List Nat) : Prop where
  nodup : pages.Nodup
  page : ∀ p ∈ pages, 0 < p ∧ p % PAGESIZE = 0 ∧ p + PAGESIZE ≤ 2 ^ 32

variable {pages supply : List Nat} {page c b sz osz : Nat} {m m' : Mem}
  {held : Multiset (Nat × Nat)} {h h' : HeapManager}

theorem PagesOk.regionsOk (h : PagesOk pages) :
    RegionsOk (pageRegions pages) := by
  constructor
  · refine List.Pairwise.map _ ?_ (List.Pairwise.and_mem.mp h.nodup)
    rintro p q ⟨hp, hq, hne⟩
    obtain ⟨-, h1, -⟩ := h.page p hp
    obtain ⟨-, h2, -⟩ := h.page q hq
    unfold PAGESIZE at *
    dsimp only
    omega
  · intro r hr
    obtain ⟨p, hp, rfl⟩ := List.mem_map.mp hr
    obtain ⟨h1, h2, h3⟩ := h.page p hp
    unfold PAGESIZE at *
    dsimp only
    omega

theorem PagesOk.tail (h : PagesOk (page :: pages)) :
    PagesOk pages :=
  ⟨(List.nodup_cons.mp h.nodup).2, fun p hp => h.page p (List.mem_cons_of_mem _ hp)⟩

theorem PagesOk.of_append (h : PagesOk (supply ++ pages)) :
    PagesOk pages :=
  ⟨(List.nodup_append.mp h.nodup).2.1, fun p hp => h.page p (List.mem_append_right _ hp)⟩

theorem PagesOk.next (h : PagesOk (page :: supply ++ pages)) :
    PagesOk (supply ++ page :: pages) := by
  have hperm : (supply ++ page :: pages).Perm (page :: supply ++ pages) := List.perm_middle
  exact ⟨hperm.nodup_iff.mpr h.nodup, fun p hp => h.page p (hperm.mem_iff.mp hp)⟩

/-- The small heap with the chunks of `held` outside its free stacks. -/
structure HeapOk (h : HeapManager) (held : Multiset (Nat × Nat)) : Prop where
  pages : PagesOk h.pages
  tiled : Tiled h (pageRegions h.pages) held

/-- What the heap promises about the chunk of a live allocation of `sz`
bytes. -/
structure LiveOk (m : Mem) (c b sz : Nat) : Prop where
  free : chunkFree m c = byte 'A'
  valid : m (c + bucketByteSize b - 1) = byte 'V'
  fits : sz + CHUNK_HEADER_PLUS_RESERVED ≤ bucketByteSize b

theorem LiveOk.size_pos (h : LiveOk m c b sz) :
    9 ≤ bucketByteSize b := by
  have := h.fits
  unfold CHUNK_HEADER_PLUS_RESERVED at this
  omega

theorem LiveOk.of_bytes (h : LiveOk m c b sz) (h0 : m' c = m c)
    (h1 : m' (c + bucketByteSize b - 1) = m (c + bucketByteSize b - 1)) : LiveOk m' c b sz :=
  ⟨h0.trans h.free, h1.trans h.valid, h.fits⟩

theorem LiveOk.keeps (h : LiveOk m c b sz) (hkeeps : Keeps m m' held) (hmem : (c, b) ∈ held) :
    LiveOk m' c b sz := by
  have hpos := h.size_pos
  have hbytes := hkeeps (c, b) hmem
  dsimp only at hbytes
  exact h.of_bytes (hbytes c (by omega) (by omega)) (hbytes _ (by omega) (by omega))

/-! ## Allocating -/

/-- What a successful allocation does. -/
structure Allocated (h h' : HeapManager) (held : Multiset (Nat × Nat)) (ptr sz c b : Nat) :
    Prop where
  ptr : ptr = c + 8
  heap : HeapOk h' ((c, b) ::ₘ held)
  live : LiveOk h'.mem c b sz
  keeps : Keeps h.mem h'.mem held

/-- The memory after the last part of `_allocate`. -/
def claimChunk (m : Mem) (c b tid sz : Nat) : Mem :=
  setAllocator (setSize (setFree (m.put (c + bucketByteSize b - 1) (byte 'V')) c (byte 'A')) c sz)
    c tid

theorem sameOutside_claimHeader (m : Mem) (c tid sz : Nat) :
    m.SameOutside (setAllocator (setSize (setFree m c (byte 'A')) c sz) c tid) c 8 :=
  ((sameOutside_setFree m c _).trans (sameOutside_setSize _ c sz)).trans
    (sameOutside_setAllocator _ c tid)

theorem sameOutside_claimChunk (m : Mem) (c tid sz : Nat) (hb : 16 ≤ bucketByteSize b) :
    m.SameOutside (claimChunk m c b tid sz) c (bucketByteSize b) :=
  ((Mem.SameOutside.put m (c + bucketByteSize b - 1) _).mono (by omega) (by omega)).trans
    ((sameOutside_claimHeader _ c tid sz).mono le_rfl (by omega))

theorem chunkBucket_claimChunk (m : Mem) (c tid sz : Nat) (hb : 16 ≤ bucketByteSize b) :
    chunkBucket (claimChunk m c b tid sz) c = chunkBucket m c := by
  rw [claimChunk, chunkBucket_setAllocator, chunkBucket_setSize, chunkBucket_setFree]
  exact Mem.get16_congr (Mem.put_of_ne _ (by omega)) (Mem.put_of_ne _ (by omega))

theorem liveOk_claimChunk (m : Mem) (c tid : Nat) (hb : 16 ≤ bucketByteSize b)
    (hfits : sz + CHUNK_HEADER_PLUS_RESERVED ≤ bucketByteSize b) :
    LiveOk (claimChunk m c b tid sz) c b sz := by
  refine ⟨?_, ?_, hfits⟩
  · rw [claimChunk, chunkFree_setAllocator, chunkFree_setSize, chunkFree_setFree]
  · have hout := sameOutside_claimHeader (m.put (c + bucketByteSize b - 1) (byte 'V')) c tid sz
      (c + bucketByteSize b - 1) (by omega)
    rw [claimChunk, hout, Mem.put_same]

theorem allocated_of_popped (tid : Nat) (hok : HeapOk h held)
    (hpopped : Tiled.Popped h h' (pageRegions h.pages) held c b)
    (hfits : sz + CHUNK_HEADER_PLUS_RESERVED ≤ bucketByteSize b) :
    Allocated h { h' with mem := claimChunk h'.mem c b tid sz } held (c + 8) sz c b := by
  have hb := hpopped.tiled.size_cons
  have hsame := sameOutside_claimChunk h'.mem c tid sz hb
  have hheader : chunkBucket h'.mem c = b := hpopped.tiled.header_cons
  refine ⟨rfl, ⟨?_, ?_⟩, liveOk_claimChunk h'.mem c tid hb hfits,
    hpopped.keeps.trans (hpopped.tiled.keeps hsame)⟩
  · exact hpopped.pages ▸ hok.pages
  · have hwrite := hpopped.tiled.write hsame
      ((chunkBucket_claimChunk h'.mem c tid sz hb).trans hheader)
    rw [← hpopped.pages] at hwrite
    exact hwrite

theorem fits_bucketIndex (hsz : sz ≤ MAX_SMALL_ALLOC_SIZE) :
    bucketIndex (sz + CHUNK_HEADER_PLUS_RESERVED) < BUCKETS ∧
      sz + CHUNK_HEADER_PLUS_RESERVED
        ≤ bucketByteSize (bucketIndex (sz + CHUNK_HEADER_PLUS_RESERVED)) := by
  have hle : sz + CHUNK_HEADER_PLUS_RESERVED ≤ bucketByteSize (BUCKETS - 1) := by
    have h1 : MAX_SMALL_ALLOC_SIZE = 3719 := by decide
    have h2 : bucketByteSize (BUCKETS - 1) = 3728 := by decide
    have h3 : CHUNK_HEADER_PLUS_RESERVED = 9 := rfl
    omega
  obtain ⟨h1, h2, -⟩ := bucketIndex_smallest hle
  exact ⟨h1, h2⟩

theorem newPage_pages (h : HeapManager) (page : Nat) :
    (h.newPage page).pages = page :: h.pages := by
  rw [Tiled.newPage_eq]
  simp [HeapManager.carve]

theorem HeapOk.newPage (hok : HeapOk h held) (hpages : PagesOk (page :: h.pages)) :
    HeapOk (h.newPage page) held ∧ Keeps h.mem (h.newPage page).mem held := by
  have hregions : RegionsOk ((page, page + PAGESIZE) :: pageRegions h.pages) := hpages.regionsOk
  obtain ⟨htiled, hkeeps⟩ := hok.tiled.newPage hregions
  refine ⟨⟨?_, ?_⟩, hkeeps⟩
  · rw [newPage_pages]
    exact hpages
  · rw [newPage_pages]
    exact htiled

/-- The two ways of `_allocate`: a chunk is popped and claimed, or the larger
buckets are empty and a new page is asked for. -/
theorem allocate_cases (tid : Nat) (hok : HeapOk h held) (hsz : sz ≤ MAX_SMALL_ALLOC_SIZE) :
    (∃ c b h', Allocated h h' held (c + 8) sz c b ∧
        ∀ supply, h.allocate tid sz supply = .ok (c + 8, h')) ∨
      (h.firstChunk (BUCKETS - 1) = [] ∧ h.allocate tid sz [] = .error .outOfMemory ∧
        ∀ page supply,
          h.allocate tid sz (page :: supply) = (h.newPage page).allocate tid sz supply) := by
  obtain ⟨hlt, hfits⟩ := fits_bucketIndex hsz
  cases hpop : h.popBucket (bucketIndex (sz + CHUNK_HEADER_PLUS_RESERVED)) with
  | mk r h₁ =>
    cases r with
    | none =>
      right
      obtain ⟨rfl, hempty⟩ := hok.tiled.popBucketLoop_none (by omega) hpop
      refine ⟨hempty _ (by omega) (by decide), ?_, fun page supply => ?_⟩
      · rw [HeapManager.allocate.eq_def, hpop]
      · rw [HeapManager.allocate.eq_def, hpop]
    | some c =>
      left
      have hpopped := hok.tiled.popBucketLoop hpop
      have hheader : chunkBucket h₁.mem c = bucketIndex (sz + CHUNK_HEADER_PLUS_RESERVED) :=
        hpopped.tiled.header_cons
      refine ⟨c, _, _, allocated_of_popped tid hok hpopped hfits, fun supply => ?_⟩
      rw [HeapManager.allocate.eq_def, hpop]
      dsimp only
      rw [if_pos hpopped.free, hheader, claimChunk]

theorem allocate_spec {tid ptr : Nat} (hok : HeapOk h held) (hpages : PagesOk (supply ++ h.pages))
    (hsz : sz ≤ MAX_SMALL_ALLOC_SIZE) (halloc : h.allocate tid sz supply = .ok (ptr, h')) :
    ∃ c b, Allocated h h' held ptr sz c b := by
  induction supply generalizing h with
  | nil =>
    rcases allocate_cases tid hok hsz with ⟨c, b, h₁, hspec, heq⟩ | ⟨-, herr, -⟩
    · rw [heq, Except.ok.injEq, Prod.mk.injEq] at halloc
      obtain ⟨rfl, rfl⟩ := halloc
      exact ⟨c, b, hspec⟩
    · simp [herr] at halloc
  | cons page supply ih =>
    rcases allocate_cases tid hok hsz with ⟨c, b, h₁, hspec, heq⟩ | ⟨-, -, hpage⟩
    · rw [heq, Except.ok.injEq, Prod.mk.injEq] at halloc
      obtain ⟨rfl, rfl⟩ := halloc
      exact ⟨c, b, hspec⟩
    · rw [hpage] at halloc
      have hnext := hpages.next
      obtain ⟨hok', hkeeps⟩ := hok.newPage hnext.of_append
      obtain ⟨c, b, hspec⟩ := ih hok' (by rw [newPage_pages]; exact hnext) halloc
      exact ⟨c, b, hspec.ptr, hspec.heap, hspec.live, hkeeps.trans hspec.keeps⟩

theorem newPage_stack (h : HeapManager) (page : Nat) :
    (h.newPage page).firstChunk (BUCKETS - 1) ≠ [] := by
  have h6 : ¬ (6 ≥ BUCKETS) := by decide
  have h1 : ¬ (1 ≥ BUCKETS) := by decide
  have h11 : ¬ (11 ≥ BUCKETS) := by decide
  have hne6 : BUCKETS - 1 ≠ 6 := by decide
  have hne1 : BUCKETS - 1 ≠ 1 := by decide
  have heq : BUCKETS - 1 = 11 := rfl
  rw [Tiled.newPage_eq]
  simp only [HeapManager.carve, HeapManager.pushBucket, if_neg h6, if_neg h1, if_neg h11,
    Function.update_of_ne hne6, Function.update_of_ne hne1]
  rw [heq, Function.update_self]
  exact List.cons_ne_nil _ _

theorem allocate_returns (tid : Nat) (hok : HeapOk h held)
    (hpages : PagesOk (page :: supply ++ h.pages)) (hsz : sz ≤ MAX_SMALL_ALLOC_SIZE) :
    ∃ r, h.allocate tid sz (page :: supply) = .ok r := by
  rcases allocate_cases tid hok hsz with ⟨c, b, h₁, -, heq⟩ | ⟨-, -, hpage⟩
  · exact ⟨_, heq _⟩
  · obtain ⟨hok', -⟩ := hok.newPage hpages.next.of_append
    rcases allocate_cases tid hok' hsz with ⟨c, b, h₁, -, heq⟩ | ⟨hempty, -, -⟩
    · exact ⟨_, (hpage page supply).trans (heq supply)⟩
    · exact absurd hempty (newPage_stack h page)

/-! ## Freeing -/

theorem small_ptr (hok : HeapOk h ((c, b) ::ₘ held)) :
    c + 8 < VMM_VADDR_MALLOC ∧ alignPage (c + 8) ≠ c + 8 := by
  have hmem : (c, b) ∈ h.freeChunks + (c, b) ::ₘ held :=
    Tiled.held_mem _ (Multiset.mem_cons_self _ _)
  have hdvd : 16 ∣ c := hok.tiled.dvd hmem
  have hbounds := hok.tiled.bounds hmem
  have hsize := hok.tiled.size_cons
  have hvmm : VMM_VADDR_MALLOC = 17179869184 := rfl
  unfold alignPage PAGESIZE
  dsimp only at hbounds
  constructor <;> omega

theorem free_eq (hok : HeapOk h ((c, b) ::ₘ held)) (hlive : LiveOk h.mem c b sz) :
    h.free (c + 8) = .ok (h.pushBucket c b) := by
  obtain ⟨hvmm, halign⟩ := small_ptr hok
  have hheader : chunkBucket h.mem c = b := hok.tiled.header_cons
  have hfree : chunkFree h.mem c ≠ byte 'F' := by
    rw [hlive.free]
    decide
  have hvalid := hlive.valid
  rw [HeapManager.free, if_neg (by omega), if_neg (by omega), if_neg halign]
  simp only [Nat.add_sub_cancel, if_neg hfree, hheader, hvalid, ne_eq, not_true_eq_false, if_false]

/-- A live chunk goes back to its free stack, and the others keep their
bytes. -/
theorem free_spec (hok : HeapOk h ((c, b) ::ₘ held)) :
    HeapOk (h.pushBucket c b) held ∧ Keeps h.mem (h.pushBucket c b).mem held := by
  refine ⟨⟨?_, ?_⟩, hok.tiled.keeps hok.tiled.pushBucket_sameOutside⟩
  · rw [Tiled.pushBucket_pages]
    exact hok.pages
  · rw [Tiled.pushBucket_pages]
    exact hok.tiled.pushBucket

/-! ## Reallocating -/

theorem HeapOk.writeData {n : Nat} (hok : HeapOk h ((c, b) ::ₘ held)) (hlive : LiveOk h.mem c b sz)
    (hn : n ≤ sz) (hsame : h.mem.SameOutside m' (c + 8) n) :
    HeapOk { h with mem := m' } ((c, b) ::ₘ held) ∧ LiveOk m' c b sz ∧
      Keeps h.mem m' held := by
  have hfits := hlive.fits
  have hnine : CHUNK_HEADER_PLUS_RESERVED = 9 := rfl
  have hchunk : h.mem.SameOutside m' c (bucketByteSize b) := hsame.mono (by omega) (by omega)
  have hheader : SameHeader h.mem m' c :=
    sameHeader_of_bytes fun x _ hhi => hsame x (by omega)
  refine ⟨⟨hok.pages, hok.tiled.write hchunk (hheader.bucket.trans hok.tiled.header_cons)⟩, ?_,
    hok.tiled.keeps hchunk⟩
  exact hlive.of_bytes hheader.free (hsame _ (by omega))

theorem asize_eq (hb : b < BUCKETS) :
    sub64 (bucketByteSize b) CHUNK_HEADER_PLUS_RESERVED
      = bucketByteSize b - CHUNK_HEADER_PLUS_RESERVED := by
  have h1 := le_bucketByteSize hb
  have h2 := bucketByteSize_le_max hb
  have h3 : MIN_BUCKET_SIZE = 16 := rfl
  have h4 : CHUNK_HEADER_PLUS_RESERVED = 9 := rfl
  exact sub64_of_le (by omega) (by omega)

/-- The second half of a `_realloc` that moves: the old bytes are copied and
the old chunk is freed. -/
theorem move_spec {h₁ : HeapManager} {newPtr c' b' : Nat} (hlive : LiveOk h.mem c b osz)
    (halloc : Allocated h h₁ ((c, b) ::ₘ held) newPtr sz c' b')
    (hlt : bucketByteSize b - CHUNK_HEADER_PLUS_RESERVED < sz) :
    ∃ h', HeapManager.free
        { h₁ with mem := h₁.mem.copy newPtr (c + 8) (bucketByteSize b - CHUNK_HEADER_PLUS_RESERVED) }
        (c + 8) = .ok h' ∧
      Allocated h h' held newPtr sz c' b' := by
  have hcopy := Mem.SameOutside.copy h₁.mem newPtr (c + 8)
    (bucketByteSize b - CHUNK_HEADER_PLUS_RESERVED)
  have hptr := halloc.ptr
  rw [hptr] at hcopy ⊢
  obtain ⟨hok2, hlive2, hkeeps2⟩ := halloc.heap.writeData halloc.live hlt.le hcopy
  have hold : LiveOk _ c b osz :=
    (hlive.keeps halloc.keeps (Multiset.mem_cons_self _ _)).keeps hkeeps2
      (Multiset.mem_cons_self _ _)
  rw [Multiset.cons_swap] at hok2
  obtain ⟨hok3, hkeeps3⟩ := free_spec hok2
  have hsub : held ⊆ (c, b) ::ₘ held := fun d hd => Multiset.mem_cons_of_mem hd
  refine ⟨_, free_eq hok2 hold, rfl, hok3, hlive2.keeps hkeeps3 (Multiset.mem_cons_self _ _), ?_⟩
  exact ((halloc.keeps.trans hkeeps2).mono hsub).trans
    (hkeeps3.mono fun d hd => Multiset.mem_cons_of_mem hd)

theorem realloc_cases (tid : Nat) (supply : List Nat) (hok : HeapOk h ((c, b) ::ₘ held))
    (hlive : LiveOk h.mem c b osz) (hsz : sz ≤ MAX_SMALL_ALLOC_SIZE) :
    (sz + CHUNK_HEADER_PLUS_RESERVED ≤ bucketByteSize b ∧
        h.realloc tid (c + 8) sz supply = .ok (c + 8, h)) ∨
      (bucketByteSize b - CHUNK_HEADER_PLUS_RESERVED < sz ∧
        h.realloc tid (c + 8) sz supply = do
          let (newPtr, h) ← h.allocate tid sz supply
          let asize := bucketByteSize b - CHUNK_HEADER_PLUS_RESERVED
          let h ← HeapManager.free { h with mem := h.mem.copy newPtr (c + 8) asize } (c + 8)
          .ok (newPtr, h)) := by
  obtain ⟨hvmm, halign⟩ := small_ptr hok
  have hb : b < BUCKETS := hok.tiled.bucket_lt (c, b)
    (Tiled.held_mem _ (Multiset.mem_cons_self _ _))
  have hnine : CHUNK_HEADER_PLUS_RESERVED = 9 := rfl
  have hpos := hlive.size_pos
  have hunfold := HeapManager.realloc.eq_def h tid (c + 8) sz supply
  rw [if_neg (by omega), if_neg halign] at hunfold
  simp only [Nat.add_sub_cancel, hok.tiled.header_cons, asize_eq hb] at hunfold
  by_cases hlt : bucketByteSize b - CHUNK_HEADER_PLUS_RESERVED < sz
  · right
    rw [if_pos hlt, if_neg (by omega)] at hunfold
    exact ⟨hlt, hunfold⟩
  · left
    rw [if_neg hlt] at hunfold
    exact ⟨by omega, hunfold⟩

theorem realloc_spec {tid ptr : Nat} (hok : HeapOk h ((c, b) ::ₘ held))
    (hlive : LiveOk h.mem c b osz) (hpages : PagesOk (supply ++ h.pages))
    (hsz : sz ≤ MAX_SMALL_ALLOC_SIZE) (hre : h.realloc tid (c + 8) sz supply = .ok (ptr, h')) :
    ∃ c' b', Allocated h h' held ptr sz c' b' := by
  rcases realloc_cases tid supply hok hlive hsz with ⟨hfits, heq⟩ | ⟨hlt, heq⟩
  · rw [hre, Except.ok.injEq, Prod.mk.injEq] at heq
    obtain ⟨rfl, rfl⟩ := heq
    exact ⟨c, b, rfl, hok, ⟨hlive.free, hlive.valid, hfits⟩, Keeps.refl _ _⟩
  · cases halloc : h.allocate tid sz supply with
    | error e => simp [heq, halloc, Bind.bind, Except.bind] at hre
    | ok r =>
      obtain ⟨newPtr, h₁⟩ := r
      obtain ⟨c', b', hspec⟩ := allocate_spec hok hpages hsz halloc
      obtain ⟨h₂, hfree, hmoved⟩ := move_spec hlive hspec hlt
      simp only [heq, halloc, hfree, Bind.bind, Except.bind, Except.ok.injEq,
        Prod.mk.injEq] at hre
      obtain ⟨rfl, rfl⟩ := hre
      exact ⟨c', b', hmoved⟩

theorem realloc_returns (tid : Nat) (hok : HeapOk h ((c, b) ::ₘ held))
    (hlive : LiveOk h.mem c b osz) (hpages : PagesOk (page :: supply ++ h.pages))
    (hsz : sz ≤ MAX_SMALL_ALLOC_SIZE) :
    ∃ r, h.realloc tid (c + 8) sz (page :: supply) = .ok r := by
  rcases realloc_cases tid (page :: supply) hok hlive hsz with ⟨-, heq⟩ | ⟨hlt, heq⟩
  · exact ⟨_, heq⟩
  · obtain ⟨⟨newPtr, h₁⟩, halloc⟩ := allocate_returns tid hok hpages hsz
    obtain ⟨c', b', hspec⟩ := allocate_spec hok hpages hsz halloc
    obtain ⟨h₂, hfree, -⟩ := move_spec hlive hspec hlt
    refine ⟨(newPtr, h₂), ?_⟩
    simp only [heq, halloc, hfree, Bind.bind, Except.bind]

end Hostboot.HeapMgr
