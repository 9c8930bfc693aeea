import Hostboot.Lib.Run
import Mathlib

/-!
# Claiming an entry of a trace buffer

`Buffer::claimEntry` of `src/usr/trace/buffer.C` and `BufferPage::claimEntry` of
`src/usr/trace/bufferpage.C`.  A client asks for the bytes of its trace.  The
buffer adds the fields of an entry and claims the sum from its first page, or
from a new page, which becomes the first one.

A page is named by its place in the order of allocation, and an entry by its
page and its place in the data of the page.  A call runs alone, so that every
compare-and-swap succeeds, and it does not return when it waits for the daemon
to free a page.

Two tests of a size have to agree: `Buffer` refuses what is larger than the data
of a page, and `BufferPage` gives what is smaller than the space left.  What
fills a page is refused by neither and given by none.

* The functions, and the rounds of their loop.
* `Ok`: the entries lie apart in the used part of their pages.
* `round_cases` is what a round does for a size that a page can hold, and
  `claimLoop_full` that no number of rounds serves a size that fills a page.
* `claimEntry_right_iff`: which of the sizes are served.
-/

namespace Hostboot.Trace.Client

/-! ## The functions of the source -/

def PAGESIZE : UInt64 := 4096

/-- `sizeof(BufferPage)`. -/
def SIZEOF_BUFFER_PAGE : UInt64 := 24

/-- `sizeof(Entry)`. -/
def SIZEOF_ENTRY : UInt64 := 32

def ALIGN_8 (u : UInt64) : UInt64 := (u + 7) &&& ~~~7

structure BufferPage where
  next : Option Nat
  prev : Option Nat
  usedSize : UInt32
  deriving DecidableEq, Repr

/-- `Entry`, at the place `offset` of the data of a page. -/
structure Entry where
  page : Nat
  offset : Nat
  comp : Nat
  size : UInt16
  deriving DecidableEq, Repr

/-- `Buffer`: the pages that were allocated for it, how many they are, and the
entries in them. -/
structure Buffer where
  page : Nat → BufferPage := fun _ => ⟨none, none, 0⟩
  pages : Nat := 0
  entries : List Entry := []
  iv_firstPage : Option Nat := none
  iv_pagesAlloc : UInt64 := 0
  iv_pagesMax : UInt64

/-- `BufferPage::claimEntry`: the place of the entry, and the page after it. -/
def BufferPage.claimEntry (page : BufferPage) (i_size : UInt64) : Option (UInt64 × BufferPage) :=
  let l_usedSize := page.usedSize.toUInt64
  if l_usedSize + i_size < PAGESIZE - SIZEOF_BUFFER_PAGE then
    some (l_usedSize, { page with usedSize := (l_usedSize + i_size).toUInt32 })
  else none

/-- How a round of the loop ends. -/
inductive Round where
  | claimed (b : Buffer) (page : Nat) (offset : UInt64)
  | again (b : Buffer)
  | waits

namespace Buffer

/-- A store to a page. -/
def setPage (b : Buffer) (p : Nat) (page : BufferPage) : Buffer :=
  { b with page := Function.update b.page p page }

/-- The link from the page that was the first one. -/
def link (b : Buffer) : Buffer :=
  match b.iv_firstPage with
  | none => b
  | some first => b.setPage first { b.page first with next := some b.pages }

/-- The buffer with one page more, which is its first one. -/
def hook (b : Buffer) (newPage : BufferPage) : Buffer :=
  { b.link.setPage b.pages newPage with
    pages := b.pages + 1
    iv_firstPage := some b.pages
    iv_pagesAlloc := b.iv_pagesAlloc + 1 }

/-- The second half of a round: a new page, and the entry from it. -/
def addPage (b : Buffer) (i_size : UInt64) : Round :=
  if b.iv_pagesAlloc ≥ b.iv_pagesMax then .waits
  else
    match BufferPage.claimEntry ⟨none, b.iv_firstPage, 0⟩ i_size with
    | some (offset, newPage) => .claimed (b.hook newPage) b.pages offset
    | none => .again (b.hook ⟨none, b.iv_firstPage, 0⟩)

/-- One round of the loop of `claimEntry`. -/
def round (b : Buffer) (i_size : UInt64) : Round :=
  match b.iv_firstPage with
  | none => b.addPage i_size
  | some first =>
    match (b.page first).claimEntry i_size with
    | some (offset, page) => .claimed (b.setPage first page) first offset
    | none => if (b.page first).next ≠ none then .again b else b.addPage i_size

/-- The loop of `claimEntry`, for so many rounds. -/
def claimLoop (i_size : UInt64) : Nat → Buffer → Option (Buffer × Nat × UInt64)
  | 0, _ => none
  | rounds + 1, b =>
    match b.round i_size with
    | .claimed b page offset => some (b, page, offset)
    | .again b => claimLoop i_size rounds b
    | .waits => none

/-- The end of `claimEntry`: the fields of the entry. -/
def fill (i_comp : Nat) (i_size : UInt64) (r : Buffer × Nat × UInt64) : Buffer × Option Entry :=
  let l_entry : Entry := ⟨r.2.1, r.2.2.toNat, i_comp, (i_size - SIZEOF_ENTRY).toUInt16⟩
  ({ r.1 with entries := l_entry :: r.1.entries }, some l_entry)

/-- `Buffer::claimEntry`.  The entry is `none` when the size is refused. -/
def claimEntry (b : Buffer) (rounds i_comp : Nat) (i_size : UInt64) :
    Option (Buffer × Option Entry) :=
  let i_size := ALIGN_8 (i_size + SIZEOF_ENTRY)
  if i_size > PAGESIZE - SIZEOF_BUFFER_PAGE then some (b, none)
  else (claimLoop i_size rounds b).map (fill i_comp i_size)

/-- `Buffer::claimPages`, by which the daemon takes the pages over. -/
def claimPages (b : Buffer) : Buffer := { b with iv_firstPage := none, iv_pagesAlloc := 0 }

end Buffer

/-! ## Sizes -/

theorem toNat_ALIGN_8 (u : UInt64) : (ALIGN_8 u).toNat = (u.toNat + 7) % 2 ^ 64 / 8 * 8 := by
  have hmask : (~~~7 : UInt64).toNat = (2 ^ 61 - 1) <<< 3 := by decide
  have hlt : (u.toNat + 7) % 2 ^ 64 < 2 ^ 64 := Nat.mod_lt _ (by decide)
  rw [ALIGN_8, UInt64.toNat_and, hmask, UInt64.toNat_add, show (7 : UInt64).toNat = 7 from rfl]
  generalize (u.toNat + 7) % 2 ^ 64 = n at hlt
  rw [show n / 8 * 8 = (n >>> 3) <<< 3 by rw [Nat.shiftLeft_eq, Nat.shiftRight_eq_div_pow]]
  refine Nat.eq_of_testBit_eq fun i => ?_
  rw [Nat.testBit_and, Nat.testBit_shiftLeft, Nat.testBit_shiftLeft, Nat.testBit_two_pow_sub_one,
    Nat.testBit_shiftRight]
  by_cases hi : 3 ≤ i
  · rw [decide_eq_true hi, Bool.true_and, Bool.true_and, Nat.add_sub_cancel' hi]
    by_cases hhigh : i < 64
    · rw [decide_eq_true (by omega), Bool.and_true]
    · have hzero : n.testBit i = false := Nat.testBit_lt_two_pow
        (Nat.lt_of_lt_of_le hlt (Nat.pow_le_pow_right (by decide) (by omega)))
      rw [hzero, Bool.false_and]
  · rw [decide_eq_false hi, Bool.false_and, Bool.false_and, Bool.and_false]

theorem toNat_asked (size : UInt64) : (ALIGN_8 (size + SIZEOF_ENTRY)).toNat =
    ((size.toNat + 32) % 2 ^ 64 + 7) % 2 ^ 64 / 8 * 8 := by
  rw [toNat_ALIGN_8, UInt64.toNat_add, show SIZEOF_ENTRY.toNat = 32 from rfl]

/-! ## The entries of a buffer -/

/-- The bytes of an entry. -/
def Entry.bytes (e : Entry) : Nat := 32 + e.size.toNat

/-- Two entries share no byte. -/
def Entry.Apart (e e' : Entry) : Prop :=
  e.page = e'.page → e.offset + e.bytes ≤ e'.offset ∨ e'.offset + e'.bytes ≤ e.offset

/-- The entries lie apart in the used part of their pages, and the first page has
no page behind it. -/
structure Buffer.Ok (b : Buffer) : Prop where
  first : ∀ p, b.iv_firstPage = some p → p < b.pages ∧ (b.page p).next = none
  inside : ∀ e ∈ b.entries, e.page < b.pages ∧
    e.offset + e.bytes ≤ (b.page e.page).usedSize.toNat
  apart : b.entries.Pairwise Entry.Apart

/-- The buffer may have another page. -/
def Buffer.HasRoom (b : Buffer) : Prop := b.iv_pagesAlloc < b.iv_pagesMax

instance (b : Buffer) : Decidable b.HasRoom := inferInstanceAs (Decidable (_ < _))

variable {b b' : Buffer} {i_size size : UInt64} {p offset n : Nat}

theorem BufferPage.claimEntry_cases (page : BufferPage) (h : i_size.toNat < 4072) :
    (∃ page', page.claimEntry i_size = some (page.usedSize.toUInt64, page') ∧
      page'.next = page.next ∧
      page'.usedSize.toNat = page.usedSize.toNat + i_size.toNat ∧
      page.usedSize.toNat + i_size.toNat < 4072) ∨
    (page.claimEntry i_size = none ∧ 4072 ≤ page.usedSize.toNat + i_size.toNat) := by
  have hused := page.usedSize.toNat_lt
  have hsum : (page.usedSize.toUInt64 + i_size).toNat = page.usedSize.toNat + i_size.toNat := by
    rw [UInt64.toNat_add, UInt32.toNat_toUInt64]
    omega
  have hlimit : (PAGESIZE - SIZEOF_BUFFER_PAGE).toNat = 4072 := rfl
  unfold BufferPage.claimEntry
  dsimp only
  by_cases hfits : page.usedSize.toNat + i_size.toNat < 4072
  · rw [if_pos (by rw [UInt64.lt_iff_toNat_lt, hsum, hlimit]; exact hfits)]
    refine .inl ⟨_, rfl, rfl, ?_, hfits⟩
    show (page.usedSize.toUInt64 + i_size).toUInt32.toNat = _
    rw [UInt64.toNat_toUInt32, hsum]
    omega
  · rw [if_neg (by rw [UInt64.lt_iff_toNat_lt, hsum, hlimit]; exact hfits)]
    exact .inr ⟨rfl, Nat.le_of_not_lt hfits⟩

theorem BufferPage.claimEntry_full (page : BufferPage) : page.claimEntry 4072 = none := by
  have hused := page.usedSize.toNat_lt
  have hfull : ¬ page.usedSize.toUInt64 + 4072 < PAGESIZE - SIZEOF_BUFFER_PAGE := by
    rw [UInt64.lt_iff_toNat_lt, UInt64.toNat_add, UInt32.toNat_toUInt64,
      show (4072 : UInt64).toNat = 4072 from rfl,
      show (PAGESIZE - SIZEOF_BUFFER_PAGE).toNat = 4072 from rfl]
    omega
  unfold BufferPage.claimEntry
  dsimp only
  rw [if_neg hfull]

namespace Buffer

theorem usedSize_link (b : Buffer) (q : Nat) : (b.link.page q).usedSize = (b.page q).usedSize := by
  unfold link
  cases b.iv_firstPage with
  | none => rfl
  | some first =>
    show (Function.update b.page first _ q).usedSize = _
    by_cases hq : q = first
    · rw [hq, Function.update_self]
    · rw [Function.update_of_ne hq]

theorem entries_link (b : Buffer) : b.link.entries = b.entries := by
  unfold link
  cases b.iv_firstPage <;> rfl

@[simp] theorem page_hook_self (newPage : BufferPage) : (b.hook newPage).page b.pages = newPage :=
  Function.update_self ..

theorem usedSize_hook (newPage : BufferPage) {q : Nat} (hq : q < b.pages) :
    ((b.hook newPage).page q).usedSize = (b.page q).usedSize :=
  (congrArg BufferPage.usedSize (Function.update_of_ne (Nat.ne_of_lt hq) _ _)).trans
    (b.usedSize_link q)

/-- A round gave `n` bytes of the page `p` from `offset` on. -/
structure Claimed (b b' : Buffer) (p offset n : Nat) : Prop where
  entries : b'.entries = b.entries
  first : b'.iv_firstPage = some p ∧ p < b'.pages ∧ (b'.page p).next = none
  length_le : b.pages ≤ b'.pages ∧ b'.pages ≤ b.pages + 1
  used : (b'.page p).usedSize.toNat = offset + n
  before : p < b.pages → (b.page p).usedSize.toNat = offset
  others : ∀ q < b.pages, q ≠ p → (b'.page q).usedSize = (b.page q).usedSize
  fits : offset + n < 4072

/-- A round claims from the first page or from a new one, or there is no new one. -/
theorem round_cases (h : b.Ok) (hsize : i_size.toNat < 4072) :
    (∃ b' p offset, b.round i_size = .claimed b' p offset ∧
      Claimed b b' p offset.toNat i_size.toNat) ∨
    (b.round i_size = .waits ∧ ¬ b.HasRoom) := by
  have hadd : (∃ b' p offset, b.addPage i_size = .claimed b' p offset ∧
      Claimed b b' p offset.toNat i_size.toNat) ∨ (b.addPage i_size = .waits ∧ ¬ b.HasRoom) := by
    unfold addPage HasRoom
    by_cases hroom : b.iv_pagesAlloc ≥ b.iv_pagesMax
    · rw [if_pos hroom]
      exact .inr ⟨rfl, UInt64.not_lt.mpr hroom⟩
    · rw [if_neg hroom]
      rcases BufferPage.claimEntry_cases ⟨none, b.iv_firstPage, 0⟩ hsize with
        ⟨page', heq, hnext, hused, hfits⟩ | ⟨-, hle⟩
      · rw [heq]
        exact .inl ⟨_, _, _, rfl, b.entries_link, ⟨rfl, Nat.lt_succ_self _, by simpa using hnext⟩,
          ⟨Nat.le_succ _, Nat.le_refl _⟩, by simpa using hused,
          fun hlt => absurd hlt (Nat.lt_irrefl _), fun q hq _ => usedSize_hook _ hq, hfits⟩
      · exact absurd hle (Nat.not_le.mpr (by simpa using hsize))
  unfold round
  cases hfirst : b.iv_firstPage with
  | none => exact hadd
  | some first =>
    obtain ⟨hlt, hnext⟩ := h.first first hfirst
    dsimp only
    rcases (b.page first).claimEntry_cases hsize with ⟨page', heq, hnext', hused, hfits⟩ | ⟨heq, -⟩
    · rw [heq]
      have hself : (b.setPage first page').page first = page' := Function.update_self ..
      refine .inl ⟨_, _, _, rfl, rfl, ⟨hfirst, hlt, ?_⟩, ⟨Nat.le_refl _, Nat.le_succ _⟩, ?_,
        fun _ => rfl, fun q _ hne => ?_, hfits⟩
      · rw [hself, hnext', hnext]
      · rw [hself, hused]
        rfl
      · exact congrArg BufferPage.usedSize (Function.update_of_ne hne _ _)
    · rw [heq]
      dsimp only
      rw [if_neg (not_not.mpr hnext)]
      exact hadd

theorem Claimed.ok (h : b.Ok) (hclaimed : Claimed b b' p offset n) {e : Entry} (hpage : e.page = p)
    (hoffset : e.offset = offset) (hbytes : e.bytes = n) :
    (∀ e' ∈ b.entries, e.Apart e') ∧ Ok { b' with entries := e :: b'.entries } := by
  have hapart : ∀ e' ∈ b.entries, e.Apart e' := by
    intro e' he' hsame
    obtain ⟨hlt, hinside⟩ := h.inside e' he'
    have hpage' : e'.page = p := hsame.symm.trans hpage
    rw [hpage'] at hlt hinside
    rw [hclaimed.before hlt] at hinside
    exact .inr (hoffset ▸ hinside)
  refine ⟨hapart, fun q hq => ?_, fun e' he' => ?_, ?_⟩
  · obtain ⟨hfirst, hrest⟩ := hclaimed.first
    obtain rfl := Option.some.inj (hfirst.symm.trans hq)
    exact hrest
  · show e'.page < b'.pages ∧ e'.offset + e'.bytes ≤ (b'.page e'.page).usedSize.toNat
    rcases List.mem_cons.mp he' with rfl | he'
    · rw [hpage, hclaimed.used, hoffset, hbytes]
      exact ⟨hclaimed.first.2.1, Nat.le_refl _⟩
    · rw [hclaimed.entries] at he'
      obtain ⟨hlt, hinside⟩ := h.inside e' he'
      refine ⟨Nat.lt_of_lt_of_le hlt hclaimed.length_le.1, ?_⟩
      by_cases hsame : e'.page = p
      · rw [hsame] at hlt hinside ⊢
        rw [hclaimed.before hlt] at hinside
        rw [hclaimed.used]
        exact hinside.trans (Nat.le_add_right _ _)
      · rw [hclaimed.others _ hlt hsame]
        exact hinside
  · rw [hclaimed.entries]
    exact List.pairwise_cons.mpr ⟨hapart, h.apart⟩

theorem claimLoop_claimed (h : b.Ok) (hsize : i_size.toNat < 4072) {rounds : Nat}
    {r : Buffer × Nat × UInt64} (hr : claimLoop i_size rounds b = some r) :
    Claimed b r.1 r.2.1 r.2.2.toNat i_size.toNat := by
  cases rounds with
  | zero => exact absurd hr (by simp [claimLoop])
  | succ rounds =>
    rw [claimLoop] at hr
    rcases round_cases h hsize with ⟨b', p, offset, heq, hclaimed⟩ | ⟨heq, -⟩
    · rw [heq] at hr
      obtain rfl := Option.some.inj hr
      exact hclaimed
    · rw [heq] at hr
      exact absurd hr (by simp)

theorem round_full (b : Buffer) : b.round 4072 = .waits ∨ ∃ b', b.round 4072 = .again b' := by
  have hadd : b.addPage 4072 = .waits ∨ ∃ b', b.addPage 4072 = .again b' := by
    unfold addPage
    rw [BufferPage.claimEntry_full]
    split
    · exact .inl rfl
    · exact .inr ⟨_, rfl⟩
  unfold round
  cases b.iv_firstPage with
  | none => exact hadd
  | some first =>
    dsimp only
    rw [BufferPage.claimEntry_full]
    dsimp only
    split
    · exact .inr ⟨_, rfl⟩
    · exact hadd

/-- The loop adds pages for what fills a page, as long as there are any. -/
theorem claimLoop_full (rounds : Nat) : claimLoop 4072 rounds b = none := by
  induction rounds generalizing b with
  | zero => rfl
  | succ rounds ih =>
    rw [claimLoop]
    rcases b.round_full with heq | ⟨b', heq⟩
    · rw [heq]
    · rw [heq]
      exact ih

/-! ## Calls -/

/-- A size that is refused up front. -/
def Refused (size : UInt64) : Prop :=
  ALIGN_8 (size + SIZEOF_ENTRY) > PAGESIZE - SIZEOF_BUFFER_PAGE

instance (size : UInt64) : Decidable (Refused size) := inferInstanceAs (Decidable (_ > _))

theorem claimEntry_of_not_refused (h : ¬ Refused size) (b : Buffer) (rounds comp : Nat) :
    b.claimEntry rounds comp size = (claimLoop (ALIGN_8 (size + SIZEOF_ENTRY)) rounds b).map
      (fill comp (ALIGN_8 (size + SIZEOF_ENTRY))) := if_neg h

theorem refused_iff : Refused size ↔ 4072 < (ALIGN_8 (size + SIZEOF_ENTRY)).toNat := by
  unfold Refused
  rw [gt_iff_lt, UInt64.lt_iff_toNat_lt]
  rfl

theorem asked_full (hlow : 4032 < size.toNat) (hwrap : size.toNat + 39 < 2 ^ 64)
    (h : ¬ Refused size) : ALIGN_8 (size + SIZEOF_ENTRY) = 4072 := by
  have hasked := toNat_asked size
  rw [refused_iff, hasked] at h
  refine UInt64.toNat_inj.mp (hasked.trans ?_)
  show _ = 4072
  omega

/-- A call with `size` has made the entry `e`. -/
structure Served (b b' : Buffer) (comp : Nat) (size : UInt64) (e : Entry) : Prop where
  comp : e.comp = comp
  bytes : e.bytes = (size.toNat + 32 + 7) / 8 * 8
  inside : e.page < b'.pages ∧ e.offset + e.bytes ≤ 4072
  apart : ∀ e' ∈ b.entries, e.Apart e'
  entries : b'.entries = e :: b.entries
  pages : b'.pages ≤ b.pages + 1

theorem fill_served (h : b.Ok) (hsize : size.toNat ≤ 4032) {r : Buffer × Nat × UInt64} (comp : Nat)
    (hclaimed : Claimed b r.1 r.2.1 r.2.2.toNat (ALIGN_8 (size + SIZEOF_ENTRY)).toNat) :
    ∃ b' e, fill comp (ALIGN_8 (size + SIZEOF_ENTRY)) r = (b', some e) ∧
      Served b b' comp size e ∧ b'.Ok := by
  have hasked := toNat_asked size
  have hbytes : 32 + (ALIGN_8 (size + SIZEOF_ENTRY) - SIZEOF_ENTRY).toUInt16.toNat =
      (ALIGN_8 (size + SIZEOF_ENTRY)).toNat := by
    rw [UInt64.toNat_toUInt16, UInt64.toNat_sub, show SIZEOF_ENTRY.toNat = 32 from rfl]
    omega
  obtain ⟨hapart, hok⟩ := hclaimed.ok h (e := ⟨r.2.1, r.2.2.toNat, comp, _⟩) rfl rfl hbytes
  refine ⟨_, _, rfl, ⟨rfl, hbytes.trans (by omega), ⟨hclaimed.first.2.1, ?_⟩, hapart, ?_,
    hclaimed.length_le.2⟩, hok⟩
  · show r.2.2.toNat + (32 + _) ≤ 4072
    rw [hbytes]
    exact hclaimed.fits.le
  · show _ :: r.1.entries = _
    rw [hclaimed.entries]

theorem Ok.claimEntry (h : b.Ok) (hwrap : size.toNat + 39 < 2 ^ 64) {rounds comp : Nat}
    {r : Option Entry} (hr : b.claimEntry rounds comp size = some (b', r)) : b'.Ok := by
  by_cases hrefused : Refused size
  · have heq : b.claimEntry rounds comp size = some (b, none) := if_pos hrefused
    obtain ⟨rfl, -⟩ := Prod.mk.inj (Option.some.inj (heq.symm.trans hr))
    exact h
  rw [claimEntry_of_not_refused hrefused] at hr
  obtain ⟨r', hloop, hfill⟩ := Option.map_eq_some_iff.mp hr
  by_cases hsize : size.toNat ≤ 4032
  · have hasked := toNat_asked size
    obtain ⟨b1, e, hserved, -, hok⟩ :=
      fill_served h hsize comp (claimLoop_claimed h (by omega) hloop)
    obtain ⟨rfl, -⟩ := Prod.mk.inj (hserved.symm.trans hfill)
    exact hok
  · rw [asked_full (by omega) hwrap hrefused, claimLoop_full] at hloop
    exact absurd hloop (by simp)

end Buffer

/-! ## Every buffer -/

/-- What the clients and the daemon do. -/
inductive Call
  | claimEntry (comp : Nat) (size : UInt64)
  | claimPages

/-- A call that returns.  The sum of its size with the fields of an entry does not wrap. -/
def Step (b : Buffer) : Call → Buffer → Prop
  | .claimEntry comp size, b' =>
    size.toNat + 39 < 2 ^ 64 ∧ ∃ rounds r, b.claimEntry rounds comp size = some (b', r)
  | .claimPages, b' => b' = b.claimPages

theorem Step.ok {call : Call} (h : b.Ok) (hstep : Step b call b') : b'.Ok := by
  cases call with
  | claimEntry comp size =>
    obtain ⟨hwrap, rounds, r, hr⟩ := hstep
    exact h.claimEntry hwrap hr
  | claimPages =>
    obtain rfl := hstep
    exact ⟨fun p hp => absurd hp (by simp [Buffer.claimPages]), h.inside, h.apart⟩

theorem ok_init (iv_pagesMax : UInt64) : Buffer.Ok { iv_pagesMax := iv_pagesMax } where
  first p hp := absurd hp (by simp)
  inside e he := absurd he (by simp)
  apart := .nil

theorem ok_of_run {iv_pagesMax : UInt64} {calls : List Call}
    (hrun : Lib.Run Step { iv_pagesMax := iv_pagesMax } calls b) : b.Ok :=
  hrun.invariant (ok_init _) fun _ _ _ => Step.ok

/-- A call returns, with an entry for its size. -/
def ClaimRight (b : Buffer) (comp : Nat) (size : UInt64) : Prop :=
  ∃ rounds b' e, b.claimEntry rounds comp size = some (b', some e) ∧
    b.Served b' comp size e ∧ b'.Ok

/-- Whatever was claimed before, of the sizes that are not refused those up to 4032 bytes
are served.  A larger one fills a page, or its sum with the fields of the entry wraps. -/
theorem claimEntry_right_iff {iv_pagesMax : UInt64} {calls : List Call}
    (hrun : Lib.Run Step { iv_pagesMax := iv_pagesMax } calls b) (hroom : b.HasRoom)
    (hsize : ¬ Buffer.Refused size) (comp : Nat) :
    ClaimRight b comp size ↔ size.toNat ≤ 4032 := by
  have h := ok_of_run hrun
  unfold ClaimRight
  simp only [Buffer.claimEntry_of_not_refused hsize]
  constructor
  · rintro ⟨rounds, b', e, hr, hserved, -⟩
    by_contra hlarge
    by_cases hwrap : size.toNat + 39 < 2 ^ 64
    · obtain ⟨r', hloop, -⟩ := Option.map_eq_some_iff.mp hr
      rw [Buffer.asked_full (by omega) hwrap hsize, Buffer.claimLoop_full] at hloop
      exact absurd hloop (by simp)
    · have hbytes := hserved.bytes
      have hlt := e.size.toNat_lt
      unfold Entry.bytes at hbytes
      omega
  · intro hle
    have hasked := toNat_asked size
    have hlt : (ALIGN_8 (size + SIZEOF_ENTRY)).toNat < 4072 := by omega
    rcases Buffer.round_cases h hlt with ⟨b1, p, offset, hround, hclaimed⟩ | ⟨-, hno⟩
    · obtain ⟨b', e, hfill, hserved⟩ := Buffer.fill_served h hle (r := (b1, p, offset)) comp hclaimed
      refine ⟨1, b', e, ?_, hserved⟩
      rw [Buffer.claimLoop, hround, Option.map_some, hfill]
    · exact absurd hroom hno

/-- Behind two other entries of its page. -/
theorem claimEntry_right_hundred : ∃ b : Buffer, b.entries.length = 2 ∧ ClaimRight b 0 100 := by
  have hrun : Lib.Run Step { iv_pagesMax := 2 } [.claimEntry 1 16, .claimEntry 2 24] _ :=
    .cons ⟨by decide, 1, _, rfl⟩ (.cons ⟨by decide, 1, _, rfl⟩ .nil)
  exact ⟨_, rfl, (claimEntry_right_iff hrun (by decide) (by decide) 0).mpr (by decide)⟩

/-- A trace of 4033 bytes is not refused, and its call takes page after page. -/
theorem not_claimEntry_right : ¬ ∀ (b : Buffer) (iv_pagesMax : UInt64) (calls : List Call)
    (comp : Nat) (size : UInt64), Lib.Run Step { iv_pagesMax := iv_pagesMax } calls b →
    b.HasRoom → ¬ Buffer.Refused size → ClaimRight b comp size := by
  intro hall
  have hsize : ¬ Buffer.Refused 4033 := by decide
  obtain ⟨rounds, b', e, hr, -⟩ := hall _ 8 [] 0 4033 .nil (by decide) hsize
  rw [Buffer.claimEntry_of_not_refused hsize] at hr
  obtain ⟨r', hloop, -⟩ := Option.map_eq_some_iff.mp hr
  rw [Buffer.asked_full (by decide) (by simp) hsize, Buffer.claimLoop_full] at hloop
  exact absurd hloop (by simp)

end Hostboot.Trace.Client
