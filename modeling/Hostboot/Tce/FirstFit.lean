import Hostboot.Tce.Ownership

/-!
# Which row of entries `allocateTces` finds

`UtilTceMgr::allocateTces` looks for the first row of free entries that is long
enough.  When a row is too short the loop goes on two entries behind it: the
entry in use that ended the row is left out, and so is the entry behind that
one.
-/

namespace Hostboot.Tce

open UtilTceMgr

/-! ## Rows of free entries -/

/-- There are `num` free entries from `index` on. -/
def FreeRow (s : UtilTceMgr) (num index : Nat) : Prop :=
  index + num ≤ s.ivTceEntryCount ∧ ∀ k < num, (s.table (index + k)).isFree = true

/-- The first place with `num` free entries. -/
def FirstRow (s : UtilTceMgr) (num index : Nat) : Prop :=
  FreeRow s num index ∧ ∀ before < index, ¬ FreeRow s num before

/-- The entries that the search leaves out: those behind an entry in use that
ended a row.  A row of one entry that was left out itself ends nowhere. -/
def skips (table : Nat → TceEntry) : Nat → Bool
  | 0 => false
  | 1 => false
  | index + 2 => !(table (index + 1)).isFree && (table index).isFree && !skips table index

section
variable {s : UtilTceMgr} {table : Nat → TceEntry} {num index : Nat}

theorem FirstRow.unique {index' : Nat} (h : FirstRow s num index) (h' : FirstRow s num index') :
    index = index' := by
  rcases Nat.lt_trichotomy index index' with hlt | heq | hlt
  · exact absurd h.1 (h'.2 index hlt)
  · exact heq
  · exact absurd h'.1 (h.2 index' hlt)

theorem exists_firstRow (h : FreeRow s num index) : ∃ first, FirstRow s num first := by
  classical
  have hex : ∃ index, FreeRow s num index := ⟨index, h⟩
  exact ⟨Nat.find hex, Nat.find_spec hex, fun _ hlt => Nat.find_min hex hlt⟩

theorem isFree_of_skips (h : skips table (index + 1) = true) : (table index).isFree = false := by
  cases index with
  | zero => cases h
  | succ index =>
    rw [skips, Bool.and_eq_true, Bool.and_eq_true, Bool.not_eq_true'] at h
    exact h.1.1

/-! ## What the search visits -/

/-- What holds of every index at which the outer loop starts again: it was not
left out, and no row that the search has seen ends in front of it. -/
structure Visited (table : Nat → TceEntry) (index : Nat) : Prop where
  kept : skips table index = false
  behind : ∀ before, index = before + 1 → (table before).isFree = true →
    skips table before = true

theorem visited_zero : Visited table 0 := ⟨rfl, fun _ h => nomatch h⟩

theorem Visited.next (h : Visited table index) (hused : (table index).isFree = false) :
    Visited table (index + 1) := by
  refine ⟨?_, ?_⟩
  · cases index with
    | zero => rfl
    | succ before =>
      rw [skips, hused]
      cases hfree : (table before).isFree with
      | false => rfl
      | true =>
        rw [h.behind before rfl hfree]
        rfl
  · intro before heq hfree
    obtain rfl : index = before := Nat.succ.inj heq
    rw [hused] at hfree
    cases hfree

/-- Where a row from a visited index ends, the entry behind the next one is
left out. -/
theorem Visited.skips_behind {blocked : Nat} (h : Visited table index) (hlt : index < blocked)
    (hfree : ∀ i, index ≤ i → i < blocked → (table i).isFree = true)
    (hused : (table blocked).isFree = false) : skips table (blocked + 1) = true := by
  obtain ⟨last, rfl⟩ : ∃ last, blocked = last + 1 := ⟨blocked - 1, by omega⟩
  have hlast : skips table last = false := by
    rcases Nat.lt_or_ge index last with hin | hout
    · -- the entry in front of the last one belongs to the row
      obtain ⟨before, rfl⟩ : ∃ before, last = before + 1 := ⟨last - 1, by omega⟩
      have hbefore := hfree before (by omega) (by omega)
      cases hskips : skips table (before + 1) with
      | false => rfl
      | true =>
        rw [isFree_of_skips hskips] at hbefore
        cases hbefore
    · obtain rfl : last = index := by omega
      exact h.kept
  rw [skips, hused, hfree last (by omega) (by omega), hlast]
  rfl

theorem Visited.jump {blocked : Nat} (h : Visited table index) (hlt : index < blocked)
    (hfree : ∀ i, index ≤ i → i < blocked → (table i).isFree = true)
    (hused : (table blocked).isFree = false) : Visited table (blocked + 1 + 1) := by
  refine ⟨?_, ?_⟩
  · rw [skips, hused, Bool.and_false, Bool.false_and]
  · intro before heq _
    obtain rfl : blocked + 1 = before := Nat.succ.inj heq
    exact h.skips_behind hlt hfree hused

theorem rowLoop_cases {fuel avail : Nat} (hfuel : 0 < fuel) (hnum : avail + fuel = num) :
    (rowLoop table num fuel index avail = .found ∧
      ∀ i, index ≤ i → i < index + fuel → (table i).isFree = true) ∨
    ∃ blocked, rowLoop table num fuel index avail = .blocked blocked ∧
      index ≤ blocked ∧ blocked < index + fuel ∧ (table blocked).isFree = false ∧
      ∀ i, index ≤ i → i < blocked → (table i).isFree = true := by
  induction fuel generalizing index avail with
  | zero => omega
  | succ fuel ih =>
    rw [rowLoop]
    cases hfree : (table index).isFree with
    | false =>
      refine Or.inr ⟨index, rfl, Nat.le_refl _, by omega, hfree, ?_⟩
      intro i hle hlt
      omega
    | true =>
      have hhere : ∀ i, index ≤ i → i < index + 1 → (table i).isFree = true := by
        intro i hle hlt
        obtain rfl : i = index := by omega
        exact hfree
      by_cases hlast : avail + 1 ≥ num
      · refine Or.inl ⟨?_, ?_⟩
        · rw [if_pos rfl, if_pos hlast]
        · intro i hle hlt
          exact hhere i hle (by omega)
      · rw [if_pos rfl, if_neg hlast]
        have hgo : ∀ i, index + 1 ≤ i ∨ i < index + 1 := fun i => by omega
        rcases @ih (index + 1) (avail + 1) (by omega) (by omega) with
          ⟨hrow, hall⟩ | ⟨blocked, hrow, hle, hlt, hused, hall⟩
        · refine Or.inl ⟨hrow, ?_⟩
          intro i hi hi'
          rcases hgo i with hbehind | hfront
          · exact hall i hbehind (by omega)
          · exact hhere i hi hfront
        · refine Or.inr ⟨blocked, hrow, by omega, by omega, hused, ?_⟩
          intro i hi hi'
          rcases hgo i with hbehind | hfront
          · exact hall i hbehind hi'
          · exact hhere i hi hfront

theorem lt_of_used {blocked : Nat} (hfree : (table index).isFree = true)
    (hused : (table blocked).isFree = false) (hle : index ≤ blocked) : index < blocked := by
  refine Nat.lt_of_le_of_ne hle ?_
  rintro rfl
  rw [hused] at hfree
  cases hfree

/-! ## The search -/

theorem searchLoop_kept {fuel tceIndex : Nat} (hnum : 0 < num) (h : Visited s.table tceIndex)
    (hfound : s.searchLoop num fuel tceIndex = some index) : skips s.table index = false := by
  induction fuel generalizing tceIndex with
  | zero => cases hfound
  | succ fuel ih =>
    rw [searchLoop] at hfound
    split at hfound
    case isFalse => cases hfound
    split at hfound
    case isFalse hused => exact ih (h.next (Bool.eq_false_iff.mpr hused)) hfound
    rename_i hfree
    split at hfound
    case isTrue => cases hfound
    rcases rowLoop_cases hnum (Nat.zero_add num) with
      ⟨hrow, _⟩ | ⟨blocked, hrow, hle, _, hused, hall⟩
    · rw [hrow] at hfound
      cases hfound
      exact h.kept
    · rw [hrow] at hfound
      exact ih (h.jump (lt_of_used hfree hused hle) hall hused) hfound

theorem searchLoop_firstRow {fuel tceIndex : Nat} (hnum : 0 < num) (h : Visited s.table tceIndex)
    (hle : tceIndex ≤ index) (hfuel : index < tceIndex + fuel) (hfirst : FirstRow s num index)
    (hkept : skips s.table index = false) : s.searchLoop num fuel tceIndex = some index := by
  obtain ⟨⟨hroom, hall⟩, hleast⟩ := hfirst
  induction fuel generalizing tceIndex with
  | zero => omega
  | succ fuel ih =>
    rw [searchLoop, if_pos (by omega)]
    cases hfree : (s.table tceIndex).isFree with
    | false =>
      have hne : tceIndex ≠ index := by
        rintro rfl
        have hhead := hall 0 hnum
        rw [Nat.add_zero, hfree] at hhead
        cases hhead
      rw [if_neg (by decide)]
      exact ih (h.next hfree) (by omega) (by omega)
    | true =>
      rw [if_pos rfl, if_neg (by omega)]
      rcases rowLoop_cases hnum (Nat.zero_add num) with
        ⟨hrow, hrowFree⟩ | ⟨blocked, hrow, hblocked, hend, hused, hrowFree⟩
      · rw [hrow]
        have hnot : ¬ tceIndex < index := fun hlt =>
          hleast tceIndex hlt ⟨by omega, fun k hk => hrowFree _ (by omega) (by omega)⟩
        exact congrArg some (by omega : tceIndex = index)
      · rw [hrow]
        -- the entry in use lies in front of the first row
        have hout : blocked < index := by
          rcases Nat.lt_or_ge blocked index with hlt | hge
          · exact hlt
          · have hin := hall (blocked - index) (by omega)
            rw [Nat.add_sub_cancel' hge, hused] at hin
            cases hin
        have hlt := lt_of_used hfree hused hblocked
        have hskips := h.skips_behind hlt hrowFree hused
        have hne : blocked + 1 ≠ index := by
          rintro rfl
          rw [hskips] at hkept
          cases hkept
        exact ih (h.jump hlt hrowFree hused) (by omega) (by omega)

theorem findTces_firstRow (hnum : 0 < num) (hfirst : FirstRow s num index)
    (hkept : skips s.table index = false) : s.findTces num = some index := by
  have hroom := hfirst.1.1
  exact searchLoop_firstRow hnum visited_zero (Nat.zero_le _) (by omega) hfirst hkept

end

/-! ## The calls -/

/-- A call that gets to the search: the checks in front of it pass, and the
table is set up. -/
structure Searches (s : UtilTceMgr) (startingAddress size mapped : Nat) : Prop where
  positive : 0 < size
  aligned : startingAddress % PAGESIZE = 0
  entries : s.ivTceEntryCount ≤ MAX_NUM_TCE_TABLE_ENTRIES
  fits : numTces size ≤ s.ivTceEntryCount
  small : size ≤ MAX_TCE_MEMORY_SPACE
  fresh : (s.ivAllocatedAddrs.any fun a => a.2.startAddr = startingAddress) = false
  ready : (s.prepare mapped).2 = none

/-- The answer is the token of the first row, or there is none. -/
def FirstFit (s : UtilTceMgr) (num : Nat) : Option (UtilTceMgr × Except ReasonCode Nat) → Prop
  | some (_, .ok token) => ∃ index, FirstRow s num index ∧ token = index * PAGESIZE
  | some (_, .error .UTIL_TCE_NOT_ENOUGH_FREE_ENTRIES) => ∀ index, ¬ FreeRow s num index
  | _ => False

section
variable {s : UtilTceMgr} {startingAddress size mapped : Nat} {rwNotRO : Bool}

theorem createTceTable_ivTceTableSize :
    (s.createTceTable mapped).1.ivTceTableSize = s.ivTceTableSize := by
  unfold createTceTable
  repeat' split
  all_goals rfl

theorem prepare_ivTceEntryCount : (s.prepare mapped).1.ivTceEntryCount = s.ivTceEntryCount := by
  have hsize := @createTceTable_ivTceTableSize s mapped
  unfold prepare ivTceEntryCount
  generalize s.createTceTable mapped = created at hsize ⊢
  obtain ⟨s', errl⟩ := created
  cases s.ivIsTceTableInitDone with
  | true =>
    rw [if_pos rfl]
    dsimp only
    split <;> rfl
  | false =>
    rw [if_neg (by decide), ← hsize]
    cases errl with
    | some rc => rfl
    | none =>
      dsimp only
      split <;> rfl

theorem Searches.allocateTces (h : Searches s startingAddress size mapped) :
    (((s.prepare mapped).1.findTces (numTces size) = none ∧
      s.allocateTces startingAddress size rwNotRO mapped
        = some ((s.prepare mapped).1, .error .UTIL_TCE_NOT_ENOUGH_FREE_ENTRIES)) ∨
    ∃ index s', (s.prepare mapped).1.findTces (numTces size) = some index ∧
      s.allocateTces startingAddress size rwNotRO mapped
        = some (s', .ok (index * PAGESIZE % 2 ^ 32))) := by
  have hready := h.ready
  unfold UtilTceMgr.allocateTces
  rw [if_neg (by have := h.positive; omega), if_neg (not_not_intro h.aligned),
    if_neg (by have := h.fits; have := h.small; omega), if_neg (by rw [h.fresh]; decide)]
  generalize s.prepare mapped = prepared at hready ⊢
  obtain ⟨s', errl⟩ := prepared
  cases hready
  dsimp only
  cases s'.findTces (numTces size) with
  | none => exact Or.inl ⟨rfl, rfl⟩
  | some index => exact Or.inr ⟨index, _, rfl, rfl⟩

/-- A call finds the first row, and finds one wherever there is one, exactly
when the first entry of the first row is not left out. -/
theorem allocateTces_firstFit_iff (h : Searches s startingAddress size mapped) :
    FirstFit (s.prepare mapped).1 (numTces size)
        (s.allocateTces startingAddress size rwNotRO mapped) ↔
      ∀ index, FirstRow (s.prepare mapped).1 (numTces size) index →
        skips (s.prepare mapped).1.table index = false := by
  have hnum := numTces_pos h.positive h.small
  have hcount := h.entries
  rw [← @prepare_ivTceEntryCount s mapped] at hcount
  have hpage : ∀ index, FreeRow (s.prepare mapped).1 (numTces size) index →
      index * PAGESIZE % 2 ^ 32 = index * PAGESIZE :=
    fun index hrow => token_eq hnum hrow.1 hcount
  rcases @Searches.allocateTces s startingAddress size mapped rwNotRO h with
    ⟨hfind, hanswer⟩ | ⟨found, s', hfind, hanswer⟩
  · rw [hanswer]
    constructor
    · intro hnone index hfirst
      exact absurd hfirst.1 (hnone index)
    · intro hkept index hrow
      obtain ⟨first, hfirst⟩ := exists_firstRow hrow
      rw [findTces_firstRow hnum hfirst (hkept first hfirst)] at hfind
      cases hfind
  · have hrow : FreeRow (s.prepare mapped).1 (numTces size) found := findTces_spec hnum hfind
    rw [hanswer, hpage found hrow]
    constructor
    · rintro ⟨first, hfirst, htoken⟩ index hindex
      obtain rfl : found = first := Nat.eq_of_mul_eq_mul_right (by decide : 0 < PAGESIZE) htoken
      rw [← hfirst.unique hindex]
      exact searchLoop_kept hnum visited_zero hfind
    · intro hkept
      obtain ⟨first, hfirst⟩ := exists_firstRow hrow
      rw [findTces_firstRow hnum hfirst (hkept first hfirst), Option.some.injEq] at hfind
      exact ⟨first, hfirst, by rw [hfind]⟩

end

/-- A table of four entries of which the second is in use. -/
def secondUsed : UtilTceMgr where
  ivIsTceHwInitDone := true
  ivIsTceTableInitDone := true
  ivTceTableVaAddr := 0x1000
  ivTceTablePhysAddr := 0x400000
  ivTceTableSize := 32
  ivAllocatedAddrs := [(0x1000, ⟨0x20000, 0x1000⟩)]
  table := fun i => if i = 1 then ⟨0x20, true, true⟩ else TceEntry.zero

theorem secondUsed_searches : Searches secondUsed 0x40000 0x2000 0 where
  positive := by decide
  aligned := by decide
  entries := by decide
  fits := by decide
  small := by decide
  fresh := by decide
  ready := by decide

/-- One page gets the first entry. -/
theorem allocateTces_firstFit_iff_one :
    FirstFit (secondUsed.prepare 0).1 (numTces 0x1000)
      (secondUsed.allocateTces 0x40000 0x1000 true 0) := by
  refine (allocateTces_firstFit_iff ⟨by decide, by decide, by decide, by decide, by decide,
    by decide, by decide⟩).mpr fun index hfirst => ?_
  have hzero : FirstRow (secondUsed.prepare 0).1 (numTces 0x1000) 0 :=
    ⟨⟨by decide, by decide⟩, fun i hi => absurd hi (Nat.not_lt_zero i)⟩
  obtain rfl := hzero.unique hfirst
  decide

/-- Two entries are free behind the one in use, and are not found. -/
theorem two_entries_not_found : ¬ ∀ (s : UtilTceMgr) (startingAddress size mapped : Nat)
    (rwNotRO : Bool), Searches s startingAddress size mapped →
      FirstFit (s.prepare mapped).1 (numTces size)
        (s.allocateTces startingAddress size rwNotRO mapped) := by
  intro h
  have hnone : ∀ index, ¬ FreeRow secondUsed 2 index :=
    h secondUsed 0x40000 0x2000 0 true secondUsed_searches
  exact hnone 2 ⟨by decide, by decide⟩

end Hostboot.Tce
