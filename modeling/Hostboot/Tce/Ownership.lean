import Mathlib
import Hostboot.Lib.Run
import Hostboot.Tce.UtilTceMgr
import Hostboot.Vmm.DeviceSegment

/-!
# Who owns the entries of the TCE table

The access bits of the table say which entries are free, and the map
`iv_allocatedAddrs` says who owns the others.  Each call of `UtilTceMgr`
updates both, and `Owned` is what should hold between them.

The table is mapped into a device segment, and `System` is the manager with it.

The page number of an entry has 44 bits, and nothing checks that the pages of a
window fit.
-/

namespace Hostboot.Tce

open Hostboot.Lib UtilTceMgr Hostboot.Vmm.Device

/-! ## The windows -/

/-- The first entry of a window. -/
def firstTce (a : Nat × TceEntryInfo) : Nat := a.1 / PAGESIZE

/-- The entries of a window. -/
def countTces (a : Nat × TceEntryInfo) : Nat := numTces a.2.size

/-- The entry `i` lies in the window. -/
def Covers (a : Nat × TceEntryInfo) (i : Nat) : Prop :=
  firstTce a ≤ i ∧ i < firstTce a + countTces a

instance (a : Nat × TceEntryInfo) (i : Nat) : Decidable (Covers a i) :=
  inferInstanceAs (Decidable (_ ∧ _))

/-- Two windows share no entry. -/
def Apart (a b : Nat × TceEntryInfo) : Prop :=
  firstTce a + countTces a ≤ firstTce b ∨ firstTce b + countTces b ≤ firstTce a

theorem Apart.symm {a b : Nat × TceEntryInfo} (h : Apart a b) : Apart b a := Or.symm h

variable {size num index n mapped start : Nat} {errl : Option ReasonCode} {rwNotRO : Bool}

theorem numTces_pos (hpos : 0 < size) (hmax : size ≤ MAX_TCE_MEMORY_SPACE) :
    0 < numTces size := by
  have hmax' : size ≤ 2147483648 := hmax
  unfold numTces add64 PAGESIZE
  omega

/-! ## The search -/

theorem rowLoop_found {table : Nat → TceEntry} {fuel avail : Nat} (havail : avail < num)
    (h : rowLoop table num fuel index avail = .found) :
    ∀ k < num - avail, (table (index + k)).isFree = true := by
  induction fuel generalizing index avail with
  | zero => cases h
  | succ fuel ih =>
    rw [rowLoop] at h
    split at h
    · rename_i hfree
      intro k hk
      cases k with
      | zero => exact hfree
      | succ k =>
        split at h
        · omega
        · have hnext := ih (by omega) h k (by omega)
          rwa [Nat.add_assoc, Nat.add_comm 1 k] at hnext
    · cases h

/-- The outer loop answers the start of a row of free entries in the table. -/
theorem searchLoop_spec {s : UtilTceMgr} {fuel tceIndex : Nat} (hnum : 0 < num)
    (h : s.searchLoop num fuel tceIndex = some index) :
    index + num ≤ s.ivTceEntryCount ∧ ∀ k < num, (s.table (index + k)).isFree = true := by
  induction fuel generalizing tceIndex with
  | zero => cases h
  | succ fuel ih =>
    rw [searchLoop] at h
    split at h
    · split at h
      · split at h
        · cases h
        · rename_i hroom
          split at h
          · rename_i hrow
            simp only [Option.some.injEq] at h
            subst h
            exact ⟨by omega, rowLoop_found hnum hrow⟩
          · exact ih h
          · exact ih h
      · exact ih h
    · cases h

theorem findTces_spec {s : UtilTceMgr} (hnum : 0 < num) (h : s.findTces num = some index) :
    index + num ≤ s.ivTceEntryCount ∧ ∀ k < num, (s.table (index + k)).isFree = true :=
  searchLoop_spec hnum h

/-! ## The loops over a window -/

/-- What `allocateTces` makes of the entry `j` of a window. -/
def filled (start first : Nat) (rwNotRO : Bool) (table : Nat → TceEntry) (j : Nat) : TceEntry where
  realPageNumber := add64 start ((j - first) * PAGESIZE) / PAGESIZE % 2 ^ 44
  writeAccess := if rwNotRO then true else (table j).writeAccess
  readAccess := true

theorem setTces_apply (start first : Nat) (rwNotRO : Bool) (table : Nat → TceEntry) (n j : Nat) :
    setTces start first rwNotRO table n j =
      if first ≤ j ∧ j < first + n then filled start first rwNotRO table j else table j := by
  induction n generalizing j with
  | zero =>
    have hout : ¬ (first ≤ j ∧ j < first + 0) := by omega
    rw [setTces, if_neg hout]
  | succ n ih =>
    rw [setTces]
    dsimp only
    by_cases hj : j = first + n
    · subst hj
      have hin : first ≤ first + n ∧ first + n < first + (n + 1) := by omega
      have hout : ¬ (first ≤ first + n ∧ first + n < first + n) := by omega
      rw [Function.update_self, if_pos hin, ih, if_neg hout, filled, Nat.add_sub_cancel_left]
    · have hiff : (first ≤ j ∧ j < first + (n + 1)) ↔ (first ≤ j ∧ j < first + n) := by omega
      rw [Function.update_of_ne hj, ih]
      exact if_congr hiff.symm rfl rfl

theorem clearTces_table (first : Nat) (table : Nat → TceEntry) (n j : Nat) :
    (clearTces first table n).table j =
      if first ≤ j ∧ j < first + n then TceEntry.zero else table j := by
  induction n with
  | zero =>
    have hout : ¬ (first ≤ j ∧ j < first + 0) := by omega
    rw [clearTces, if_neg hout]
  | succ n ih =>
    rw [clearTces]
    dsimp only
    by_cases hj : j = first + n
    · subst hj
      have hin : first ≤ first + n ∧ first + n < first + (n + 1) := by omega
      rw [Function.update_self, if_pos hin]
    · have hiff : (first ≤ j ∧ j < first + (n + 1)) ↔ (first ≤ j ∧ j < first + n) := by omega
      rw [Function.update_of_ne hj, ih]
      exact if_congr hiff.symm rfl rfl

theorem clearTces_contiguous {first page : Nat} {table : Nat → TceEntry}
    (hpages : ∀ k < n, (table (first + k)).realPageNumber = page + k) (hfits : page + n ≤ 2 ^ 44) :
    (clearTces first table n).isContiguous = true ∧
      (0 < n → (clearTces first table n).previousAddress + 1 = page + n) := by
  induction n with
  | zero => exact ⟨rfl, fun h => absurd h (Nat.lt_irrefl 0)⟩
  | succ n ih =>
    obtain ⟨hcont, hprev⟩ := ih (fun k hk => hpages k (by omega)) (by omega)
    have hentry : ((clearTces first table n).table (first + n)).realPageNumber = page + n := by
      rw [clearTces_table, if_neg (by omega)]
      exact hpages n (by omega)
    rw [clearTces]
    dsimp only
    rw [hentry, hcont]
    refine ⟨?_, fun _ => by omega⟩
    rw [if_neg]
    rintro ⟨hne, hgap⟩
    have hone := hprev (by omega)
    refine hgap ?_
    unfold sub64
    omega

/-! ## Ownership -/

/-- The windows lie in the table and share no entry; an entry of the table has
access exactly when it lies in a window; the entries of a window map its pages;
no two windows have the same start; and every token can be given back.  Until
the table is mapped for the first time its memory holds anything. -/
structure Owned (s : UtilTceMgr) : Prop where
  inside : ∀ a ∈ s.ivAllocatedAddrs, firstTce a + countTces a ≤ s.ivTceEntryCount
  disjoint : s.ivAllocatedAddrs.Pairwise Apart
  access : s.ivTceTableVaAddr ≠ 0 → ∀ i < s.ivTceEntryCount,
    ((s.table i).readAccess = true ∨ (s.table i).writeAccess = true ↔
      ∃ a ∈ s.ivAllocatedAddrs, Covers a i)
  unmapped : s.ivTceTableVaAddr = 0 → s.ivAllocatedAddrs = []
  pages : ∀ a ∈ s.ivAllocatedAddrs, ∀ k < countTces a,
    (s.table (firstTce a + k)).realPageNumber = a.2.startAddr / PAGESIZE + k
  starts : s.ivAllocatedAddrs.Pairwise fun a b => a.2.startAddr ≠ b.2.startAddr
  release : ∀ token, token % PAGESIZE = 0 → ∃ s', s.deallocateTces token = some (s', none)

/-- What the code relies on for one window. -/
structure WindowOk (s : UtilTceMgr) (a : Nat × TceEntryInfo) : Prop where
  token : a.1 % PAGESIZE = 0
  inside : firstTce a + countTces a ≤ s.ivTceEntryCount
  size : 0 < a.2.size
  count : 0 < countTces a
  fits : a.2.startAddr / PAGESIZE + countTces a ≤ 2 ^ 44
  pages : ∀ k < countTces a,
    (s.table (firstTce a + k)).realPageNumber = a.2.startAddr / PAGESIZE + k

/-- The invariant of the runs. -/
structure Inv (s : UtilTceMgr) : Prop where
  window : ∀ a ∈ s.ivAllocatedAddrs, WindowOk s a
  disjoint : s.ivAllocatedAddrs.Pairwise Apart
  starts : s.ivAllocatedAddrs.Pairwise fun a b => a.2.startAddr ≠ b.2.startAddr
  access : s.ivTceTableVaAddr ≠ 0 → ∀ i < s.ivTceEntryCount,
    ((s.table i).isFree = false ↔ ∃ a ∈ s.ivAllocatedAddrs, Covers a i)
  mapped : s.ivIsTceTableInitDone = true →
    s.ivTceTableVaAddr ≠ 0 ∧ s.ivTceEntryCount ≤ MAX_NUM_TCE_TABLE_ENTRIES
  unmapped : s.ivIsTceTableInitDone = false → s.ivAllocatedAddrs = []

theorem isFree_eq_false {e : TceEntry} :
    e.isFree = false ↔ e.readAccess = true ∨ e.writeAccess = true := by
  cases hr : e.readAccess <;> cases hw : e.writeAccess <;> simp [TceEntry.isFree, hr, hw]

variable {s s' : UtilTceMgr} {a b : Nat × TceEntryInfo}

theorem Inv.apart (h : Inv s) (ha : a ∈ s.ivAllocatedAddrs) (hb : b ∈ s.ivAllocatedAddrs)
    (hne : a ≠ b) : Apart a b := by
  have : Std.Symm Apart := ⟨fun _ _ => Apart.symm⟩
  exact h.disjoint.forall ha hb hne

theorem Inv.eq_of_token (h : Inv s) (ha : a ∈ s.ivAllocatedAddrs) (hb : b ∈ s.ivAllocatedAddrs)
    (htoken : a.1 = b.1) : a = b := by
  by_contra hne
  have hfirst : firstTce a = firstTce b := by rw [firstTce, firstTce, htoken]
  have ha' := (h.window a ha).count
  have hb' := (h.window b hb).count
  rcases h.apart ha hb hne with hapart | hapart <;> omega

/-! ## Setting up -/

theorem inv_init (tableAddr tableSize : Nat) (memory : Nat → TceEntry) :
    Inv (UtilTceMgr.init tableAddr tableSize memory) where
  window := by simp [UtilTceMgr.init]
  disjoint := List.Pairwise.nil
  starts := List.Pairwise.nil
  access := by simp [UtilTceMgr.init]
  mapped := by simp [UtilTceMgr.init]
  unmapped := fun _ => rfl

theorem Inv.of_unmapped (hva : s.ivTceTableVaAddr = 0) (hno : s.ivIsTceTableInitDone = false)
    (hnil : s.ivAllocatedAddrs = []) : Inv s where
  window := by simp [hnil]
  disjoint := by simp [hnil]
  starts := by simp [hnil]
  access := fun h => absurd hva h
  mapped := by simp [hno]
  unmapped := fun _ => hnil

theorem Inv.setHw (h : Inv s) (done : Bool) : Inv { s with ivIsTceHwInitDone := done } where
  window := fun a ha => ⟨(h.window a ha).token, (h.window a ha).inside, (h.window a ha).size,
    (h.window a ha).count, (h.window a ha).fits, (h.window a ha).pages⟩
  disjoint := h.disjoint
  starts := h.starts
  access := h.access
  mapped := h.mapped
  unmapped := h.unmapped

theorem Inv.of_cleared (hnil : s.ivAllocatedAddrs = [])
    (hmapped : s.ivIsTceTableInitDone = true →
      s.ivTceTableVaAddr ≠ 0 ∧ s.ivTceEntryCount ≤ MAX_NUM_TCE_TABLE_ENTRIES) :
    Inv s.clearTable where
  window := by simp [clearTable, hnil]
  disjoint := by simp [clearTable, hnil]
  starts := by simp [clearTable, hnil]
  access := by
    intro _ i hi
    have hi' : i < s.ivTceEntryCount := hi
    simp [clearTable, hi', hnil, TceEntry.zero, TceEntry.isFree]
  mapped := hmapped
  unmapped := fun _ => hnil

theorem Inv.createTceTable (h : Inv s) (hcreate : s.createTceTable mapped = (s', errl)) :
    Inv s' ∧ s'.ivAllocatedAddrs = s.ivAllocatedAddrs ∧
      s'.ivTceTableSize = s.ivTceTableSize ∧ (errl = none → s'.ivIsTceTableInitDone = true) := by
  unfold UtilTceMgr.createTceTable at hcreate
  dsimp only at hcreate
  split at hcreate
  · rename_i hdone
    cases hcreate
    exact ⟨h, rfl, rfl, fun _ => hdone⟩
  rename_i hnot
  have hno : s.ivIsTceTableInitDone = false := by simpa using hnot
  split at hcreate
  · cases hcreate
    exact ⟨h, rfl, rfl, fun hnone => by cases hnone⟩
  split at hcreate
  · cases hcreate
    exact ⟨h, rfl, rfl, fun hnone => by cases hnone⟩
  rename_i hcount
  split at hcreate
  · cases hcreate
    exact ⟨h, rfl, rfl, fun hnone => by cases hnone⟩
  split at hcreate
  · rename_i hzero
    cases hcreate
    exact ⟨Inv.of_unmapped hzero hno (h.unmapped hno), rfl, rfl, fun hnone => by cases hnone⟩
  · rename_i hmap
    cases hcreate
    refine ⟨?_, rfl, rfl, fun _ => rfl⟩
    show Inv { s with ivTceTableVaAddr := mapped, ivIsTceTableInitDone := true }.clearTable
    exact Inv.of_cleared (h.unmapped hno) fun _ => ⟨hmap, Nat.le_of_not_gt hcount⟩

theorem Inv.prepare (h : Inv s) (hprepare : s.prepare mapped = (s', errl)) :
    Inv s' ∧ s'.ivAllocatedAddrs = s.ivAllocatedAddrs ∧
      s'.ivTceTableSize = s.ivTceTableSize ∧ (errl = none → s'.ivIsTceTableInitDone = true) := by
  have hcreate : ∃ s1 errl1, (if s.ivIsTceTableInitDone = true then (s, none)
      else s.createTceTable mapped) = (s1, errl1) ∧ Inv s1 ∧
        s1.ivAllocatedAddrs = s.ivAllocatedAddrs ∧ s1.ivTceTableSize = s.ivTceTableSize ∧
        (errl1 = none → s1.ivIsTceTableInitDone = true) := by
    split
    · rename_i hdone
      exact ⟨s, none, rfl, h, rfl, rfl, fun _ => hdone⟩
    · exact ⟨_, _, rfl, h.createTceTable rfl⟩
  obtain ⟨s1, errl1, heq, hinv, hallocated, hsize, hdone⟩ := hcreate
  unfold UtilTceMgr.prepare at hprepare
  rw [heq] at hprepare
  cases errl1 with
  | some rc =>
    cases hprepare
    exact ⟨hinv, hallocated, hsize, hdone⟩
  | none =>
    simp only [Prod.mk.injEq] at hprepare
    obtain ⟨hs, hnone⟩ := hprepare
    subst hs hnone
    split
    · exact ⟨hinv, hallocated, hsize, hdone⟩
    · exact ⟨hinv.setHw true, hallocated, hsize, hdone⟩

/-! ## One call -/

theorem apart_of_not_covers (ha : 0 < countTces a) (hb : 0 < countTces b)
    (h : ∀ k < countTces a, ¬ Covers b (firstTce a + k)) : Apart a b := by
  by_contra hover
  unfold Apart at hover
  have hk := h (max (firstTce a) (firstTce b) - firstTce a) (by omega)
  unfold Covers at hk
  omega

theorem Apart.not_covers (h : Apart a b) {i : Nat} (ha : Covers a i) : ¬ Covers b i := by
  unfold Apart at h
  unfold Covers at ha ⊢
  omega

theorem covers_add {k : Nat} (hk : k < countTces a) : Covers a (firstTce a + k) :=
  ⟨Nat.le_add_right _ _, Nat.add_lt_add_left hk _⟩

/-- A window keeps what the code relies on while its entries keep their
pages. -/
theorem WindowOk.of_same (h : WindowOk s a) (hsize : s'.ivTceTableSize = s.ivTceTableSize)
    (hsame : ∀ i, Covers a i → s'.table i = s.table i) : WindowOk s' a where
  token := h.token
  inside := by
    have hinside := h.inside
    unfold ivTceEntryCount at hinside ⊢
    omega
  size := h.size
  count := h.count
  fits := h.fits
  pages := by
    intro k hk
    rw [hsame _ (covers_add hk)]
    exact h.pages k hk

theorem page_of_fits {k : Nat} (haligned : start % PAGESIZE = 0)
    (hfits : start / PAGESIZE + n ≤ 2 ^ 44) (hk : k < n) :
    add64 start (k * PAGESIZE) / PAGESIZE % 2 ^ 44 = start / PAGESIZE + k := by
  unfold add64 PAGESIZE at *
  omega

theorem token_eq {count : Nat} (hn : 0 < n) (hinside : index + n ≤ count)
    (hcount : count ≤ MAX_NUM_TCE_TABLE_ENTRIES) :
    index * PAGESIZE % 2 ^ 32 = index * PAGESIZE := by
  unfold MAX_NUM_TCE_TABLE_ENTRIES at hcount
  unfold PAGESIZE
  omega

theorem Inv.give (h : Inv s) (hdone : s.ivIsTceTableInitDone = true)
    (haligned : start % PAGESIZE = 0) (hsize : 0 < size) (hmax : size ≤ MAX_TCE_MEMORY_SPACE)
    (hnew : ∀ b ∈ s.ivAllocatedAddrs, b.2.startAddr ≠ start)
    (hfind : s.findTces (numTces size) = some index)
    (hfits : start / PAGESIZE + numTces size ≤ 2 ^ 44) :
    Inv { s with
      table := setTces start index rwNotRO s.table (numTces size)
      ivAllocatedAddrs :=
        insertAddr s.ivAllocatedAddrs (index * PAGESIZE % 2 ^ 32) ⟨start, size⟩ } := by
  have hn : 0 < numTces size := numTces_pos hsize hmax
  obtain ⟨hva, hcount⟩ := h.mapped hdone
  obtain ⟨hinside, hfree⟩ := findTces_spec hn hfind
  let a : Nat × TceEntryInfo := (index * PAGESIZE, ⟨start, size⟩)
  have hfirst : firstTce a = index := Nat.mul_div_cancel index (by decide)
  -- the entries of the row are free, so that no window has one of them
  have hnone : ∀ b ∈ s.ivAllocatedAddrs, Apart a b := by
    intro b hb
    refine apart_of_not_covers hn (h.window b hb).count ?_
    intro k hk hcovers
    rw [hfirst] at hcovers
    have hused := (h.access hva (index + k) (by
      have : k < numTces size := hk
      omega)).mpr ⟨b, hb, hcovers⟩
    rw [hfree k hk] at hused
    cases hused
  have hkeep : insertAddr s.ivAllocatedAddrs (index * PAGESIZE % 2 ^ 32) ⟨start, size⟩ =
      a :: s.ivAllocatedAddrs := by
    unfold insertAddr
    rw [token_eq hn hinside hcount, List.filter_eq_self.mpr]
    intro b hb
    have hne : b.1 ≠ index * PAGESIZE := by
      intro heq
      have hsame : firstTce b = firstTce a := by rw [firstTce, heq, firstTce]
      have hb' := (h.window b hb).count
      have ha' : 0 < countTces a := hn
      have hapart := hnone b hb
      unfold Apart at hapart
      omega
    simpa using hne
  have htable : ∀ i, setTces start index rwNotRO s.table (numTces size) i =
      if Covers a i then filled start index rwNotRO s.table i else s.table i := by
    intro i
    have hiff : (index ≤ i ∧ i < index + numTces size) ↔ Covers a i := by
      unfold Covers
      rw [hfirst]
      exact Iff.rfl
    rw [setTces_apply]
    exact if_congr hiff rfl rfl
  rw [hkeep]
  refine { window := ?_, disjoint := ?_, starts := ?_, access := ?_, mapped := h.mapped,
           unmapped := fun hno => ?_ }
  · intro b hb
    rcases List.mem_cons.mp hb with heq | hold
    · subst heq
      refine { token := Nat.mul_mod_left _ _, inside := ?_, size := hsize, count := hn,
               fits := hfits, pages := ?_ }
      · rw [hfirst]
        exact hinside
      · intro k hk
        show (setTces start index rwNotRO s.table (numTces size) _).realPageNumber = _
        rw [htable, if_pos (covers_add hk), hfirst]
        show add64 start ((index + k - index) * PAGESIZE) / PAGESIZE % 2 ^ 44 = _
        rw [Nat.add_sub_cancel_left]
        exact page_of_fits haligned hfits hk
    · refine (h.window b hold).of_same rfl ?_
      intro i hcovers
      show setTces start index rwNotRO s.table (numTces size) i = _
      rw [htable, if_neg ((hnone b hold).symm.not_covers hcovers)]
  · exact List.pairwise_cons.mpr ⟨hnone, h.disjoint⟩
  · exact List.pairwise_cons.mpr ⟨fun b hb => (hnew b hb).symm, h.starts⟩
  · intro _ i hi
    show (setTces start index rwNotRO s.table (numTces size) i).isFree = false ↔ _
    rw [htable]
    by_cases hcovers : Covers a i
    · rw [if_pos hcovers]
      exact ⟨fun _ => ⟨a, List.mem_cons_self, hcovers⟩, fun _ => rfl⟩
    · rw [if_neg hcovers, h.access hva i hi]
      constructor
      · intro hex
        obtain ⟨b, hb, hcov⟩ := hex
        exact ⟨b, List.mem_cons_of_mem a hb, hcov⟩
      · intro hex
        obtain ⟨b, hb, hcov⟩ := hex
        rcases List.mem_cons.mp hb with heq | hold
        · rw [heq] at hcov
          exact absurd hcov hcovers
        · exact ⟨b, hold, hcov⟩
  · have hno' : s.ivIsTceTableInitDone = false := hno
    rw [hdone] at hno'
    cases hno'

theorem Inv.allocateTces (h : Inv s) {r : Except ReasonCode Nat}
    (hfits : start / PAGESIZE + numTces size ≤ 2 ^ 44)
    (hcall : s.allocateTces start size rwNotRO mapped = some (s', r)) : Inv s' := by
  unfold UtilTceMgr.allocateTces at hcall
  dsimp only at hcall
  split at hcall
  · cases hcall
  rename_i hsize
  split at hcall
  · cases hcall
    exact h
  rename_i haligned
  split at hcall
  · cases hcall
    exact h
  rename_i hroom
  split at hcall
  · cases hcall
    exact h
  rename_i hfresh
  split at hcall
  · rename_i s1 rc hprepare
    cases hcall
    exact (h.prepare hprepare).1
  · rename_i s1 hprepare
    obtain ⟨hinv, hallocated, -, hdone⟩ := h.prepare hprepare
    split at hcall
    · cases hcall
      exact hinv
    · rename_i index hfind
      cases hcall
      have hnew : ∀ b ∈ s1.ivAllocatedAddrs, b.2.startAddr ≠ start := by
        intro b hb heq
        rw [hallocated] at hb
        exact hfresh (List.any_eq_true.mpr ⟨b, hb, by simpa using heq⟩)
      exact hinv.give (hdone rfl) (by omega) (by omega) (by omega) hnew hfind hfits

theorem Inv.deallocateTces (h : Inv s) {token : Nat} (haligned : token % PAGESIZE = 0) :
    ∃ s', s.deallocateTces token = some (s', none) ∧ Inv s' := by
  unfold UtilTceMgr.deallocateTces
  rw [if_neg (by omega)]
  split
  · exact ⟨s, rfl, h⟩
  rename_i key info hfound
  have hmem : (key, info) ∈ s.ivAllocatedAddrs := List.mem_of_find?_eq_some hfound
  have hkey : key = token := by simpa using List.find?_some hfound
  subst hkey
  have hok := h.window _ hmem
  have hcount : firstTce (key, info) = key / PAGESIZE := rfl
  have hnum : countTces (key, info) = numTces info.size := rfl
  have hinside := hok.inside
  rw [hcount, hnum] at hinside
  have hcont : (clearTces (key / PAGESIZE) s.table (numTces info.size)).isContiguous = true :=
    (clearTces_contiguous hok.pages hok.fits).1
  have hpos : info.size ≠ 0 := Nat.ne_of_gt hok.size
  dsimp only
  rw [if_neg hpos, if_neg (by omega), hcont]
  refine ⟨_, rfl, ?_⟩
  have htable : ∀ i, (clearTces (key / PAGESIZE) s.table (numTces info.size)).table i =
      if Covers (key, info) i then TceEntry.zero else s.table i :=
    clearTces_table _ _ _
  have hother : ∀ b, b ∈ s.ivAllocatedAddrs.filter (fun a => a.1 ≠ key) ↔
      b ∈ s.ivAllocatedAddrs ∧ b ≠ (key, info) := by
    intro b
    rw [List.mem_filter]
    constructor
    · intro hb
      refine ⟨hb.1, fun heq => ?_⟩
      subst heq
      simp at hb
    · intro hb
      refine ⟨hb.1, decide_eq_true fun heq => hb.2 (h.eq_of_token hb.1 hmem heq)⟩
  refine { window := ?_, disjoint := h.disjoint.filter _, starts := h.starts.filter _,
           access := ?_, mapped := h.mapped, unmapped := fun hno => ?_ }
  · intro b hb
    obtain ⟨hold, hne⟩ := (hother b).mp hb
    refine (h.window b hold).of_same rfl ?_
    intro i hcovers
    show (clearTces _ _ _).table i = _
    rw [htable, if_neg ((h.apart hold hmem hne).not_covers hcovers)]
  · intro hva i hi
    show ((clearTces _ _ _).table i).isFree = false ↔ ∃ b ∈ List.filter _ _, _
    rw [htable]
    by_cases hcovers : Covers (key, info) i
    · rw [if_pos hcovers]
      constructor
      · intro hfree
        cases hfree
      · intro hex
        obtain ⟨b, hb, hcov⟩ := hex
        obtain ⟨hold, hne⟩ := (hother b).mp hb
        exact absurd hcovers ((h.apart hold hmem hne).not_covers hcov)
    · rw [if_neg hcovers, h.access hva i hi]
      constructor
      · intro hex
        obtain ⟨b, hb, hcov⟩ := hex
        refine ⟨b, (hother b).mpr ⟨hb, fun heq => ?_⟩, hcov⟩
        rw [heq] at hcov
        exact hcovers hcov
      · intro hex
        obtain ⟨b, hb, hcov⟩ := hex
        exact ⟨b, ((hother b).mp hb).1, hcov⟩
  · show List.filter _ s.ivAllocatedAddrs = []
    rw [h.unmapped hno]
    rfl

theorem Inv.disableTces (h : Inv s) {rc : Int}
    (hrc : s.ivTceTableVaAddr ≠ 0 ∧ s.ivIsTceTableInitDone = true → rc = 0) :
    Inv (s.disableTces rc).1 ∧ (s.disableTces rc).1.ivIsTceTableInitDone = false := by
  unfold UtilTceMgr.disableTces
  dsimp only
  split
  · rename_i hmapped
    rw [if_neg (not_not.mpr (hrc hmapped))]
    refine ⟨?_, rfl⟩
    show Inv { s with
      ivIsTceHwInitDone := false, ivIsTceTableInitDone := false
      ivAllocatedAddrs := [] }.clearTable
    exact Inv.of_cleared rfl fun hno => by cases hno
  · rename_i hidle
    have hno : s.ivIsTceTableInitDone = false := by
      by_contra hdone
      have hdone' : s.ivIsTceTableInitDone = true := by simpa using hdone
      exact hidle ⟨(h.mapped hdone').1, hdone'⟩
    have hnil := h.unmapped hno
    have hkept := h.setHw false
    rw [← hnil]
    exact ⟨hkept, hno⟩

/-! ## The mapping of the table -/

/-- Where the table is mapped, and what it took to map it. -/
structure Placed (s s' : UtilTceMgr) (mapped : Nat) : Prop where
  kept : s.ivIsTceTableInitDone = true →
    s'.ivIsTceTableInitDone = true ∧ s'.ivTceTableVaAddr = s.ivTceTableVaAddr
  new : s.ivIsTceTableInitDone = false → s'.ivIsTceTableInitDone = true →
    s'.ivTceTableVaAddr = mapped ∧ mapped ≠ 0 ∧ s.ivTceTableSize ≤ MAX_TCE_TABLE_SIZE

theorem Placed.rfl : Placed s s mapped :=
  ⟨fun hdone => ⟨hdone, Eq.refl _⟩, fun hno hdone => by rw [hno] at hdone; cases hdone⟩

theorem createTceTable_placed (s : UtilTceMgr) (mapped : Nat) :
    Placed s (s.createTceTable mapped).1 mapped := by
  unfold UtilTceMgr.createTceTable
  split_ifs with hdone hsize hcount haddr hzero
  · exact .rfl
  · exact .rfl
  · exact .rfl
  · exact .rfl
  · exact ⟨fun h => absurd h hdone, fun _ h => absurd h hdone⟩
  · exact ⟨fun h => absurd h hdone, fun _ _ => ⟨Eq.refl _, hzero, Nat.le_of_not_gt hsize⟩⟩

theorem prepare_placed (s : UtilTceMgr) (mapped : Nat) :
    Placed s (s.prepare mapped).1 mapped := by
  have hcreate : Placed s
      (if s.ivIsTceTableInitDone = true then (s, none) else s.createTceTable mapped).1 mapped := by
    split
    · exact .rfl
    · exact createTceTable_placed s mapped
  unfold UtilTceMgr.prepare
  revert hcreate
  generalize (if s.ivIsTceTableInitDone = true then (s, none) else s.createTceTable mapped) = r
  obtain ⟨s1, errl⟩ := r
  intro hcreate
  cases errl with
  | some rc => exact hcreate
  | none =>
    dsimp only
    split
    · exact hcreate
    · exact ⟨hcreate.kept, hcreate.new⟩

theorem allocateTces_placed {r : Except ReasonCode Nat}
    (hcall : s.allocateTces start size rwNotRO mapped = some (s', r)) :
    Placed s s' mapped ∧ (s.ivIsTceTableInitDone = false → s'.ivIsTceTableInitDone = true →
      0 < s.ivTceTableSize) := by
  have hprepare := prepare_placed s mapped
  have hsame : Placed s s mapped ∧ (s.ivIsTceTableInitDone = false →
      s.ivIsTceTableInitDone = true → 0 < s.ivTceTableSize) :=
    ⟨.rfl, fun hno hdone => by rw [hno] at hdone; cases hdone⟩
  unfold UtilTceMgr.allocateTces at hcall
  dsimp only at hcall
  split at hcall
  · cases hcall
  rename_i hsize
  split at hcall
  · cases hcall
    exact hsame
  split at hcall
  · cases hcall
    exact hsame
  rename_i hroom
  have hentries : 0 < s.ivTceTableSize := by
    have hpos : 0 < numTces size := numTces_pos (by omega) (by omega)
    unfold ivTceEntryCount at hroom
    omega
  split at hcall
  · cases hcall
    exact hsame
  split at hcall
  · rename_i s1 rc heq
    rw [heq] at hprepare
    cases hcall
    exact ⟨hprepare, fun _ _ => hentries⟩
  · rename_i s1 heq
    rw [heq] at hprepare
    split at hcall
    · cases hcall
      exact ⟨hprepare, fun _ _ => hentries⟩
    · cases hcall
      exact ⟨⟨hprepare.kept, hprepare.new⟩, fun _ _ => hentries⟩

theorem deallocateTces_kept {token : Nat} (hcall : s.deallocateTces token = some (s', errl)) :
    s'.ivIsTceTableInitDone = s.ivIsTceTableInitDone ∧
      s'.ivTceTableVaAddr = s.ivTceTableVaAddr := by
  unfold UtilTceMgr.deallocateTces at hcall
  split at hcall
  · cases hcall
  split at hcall
  · cases hcall
    exact ⟨rfl, rfl⟩
  split at hcall
  · cases hcall
  dsimp only at hcall
  split at hcall
  · cases hcall
    exact ⟨rfl, rfl⟩
  · cases hcall
    exact ⟨rfl, rfl⟩

/-- A manager, and the device segment in which its table is mapped. -/
structure System where
  mgr : UtilTceMgr
  segment : DeviceSegment

/-- The calls of a client, and those of the other clients of the device segment.  The
segment of `allocateTces` is the one that has room when the table is mapped. -/
inductive Op where
  | allocateTces (startingAddress size : Nat) (rwNotRO : Bool) (segment : DeviceSegment)
  | deallocateTces (startingToken : Nat)
  | disableTces
  | devMap (ra devDataSize : Nat) (nonCI guarded : Bool)
  | devUnmap (ea : Nat)

/-- A call that trips no assertion.  `mm_block_map` and `mm_block_unmap` are `devMap` of
whole pages and `devUnmap`. -/
inductive Step (s : System) : Op → System → Prop
  | allocateTces {start size : Nat} {rwNotRO : Bool} {segment segment' : DeviceSegment}
      {addr : Option Nat} {mgr : UtilTceMgr} {r : Except ReasonCode Nat}
      (hmap : segment.devMap s.mgr.ivTceTablePhysAddr (alignPage s.mgr.ivTceTableSize) true false
        = (segment', addr))
      (hcall : s.mgr.allocateTces start size rwNotRO (addr.getD 0) = some (mgr, r)) :
      Step s (.allocateTces start size rwNotRO segment)
        ⟨mgr, if mgr.ivIsTceTableInitDone ∧ ¬ s.mgr.ivIsTceTableInitDone then segment'
          else s.segment⟩
  | deallocateTces {token : Nat} {mgr : UtilTceMgr} {errl : Option ReasonCode}
      (hcall : s.mgr.deallocateTces token = some (mgr, errl)) :
      Step s (.deallocateTces token) ⟨mgr, s.segment⟩
  | disableTces {segment' : DeviceSegment} {rc : Int} {call : Option PtCall}
      (hunmap : s.segment.devUnmap s.mgr.ivTceTableVaAddr = (segment', rc, call)) :
      Step s .disableTces ⟨(s.mgr.disableTces rc).1,
        if s.mgr.ivTceTableVaAddr ≠ 0 ∧ s.mgr.ivIsTceTableInitDone then segment'
          else s.segment⟩
  | devMap {ra size : Nat} {nonCI guarded : Bool} {segment' : DeviceSegment} {addr : Option Nat}
      (hmap : s.segment.devMap ra size nonCI guarded = (segment', addr)) :
      Step s (.devMap ra size nonCI guarded) ⟨s.mgr, segment'⟩
  | devUnmap {ea : Nat} {segment' : DeviceSegment} {rc : Int} {call : Option PtCall}
      (hunmap : s.segment.devUnmap ea = (segment', rc, call)) :
      Step s (.devUnmap ea) ⟨s.mgr, segment'⟩

/-! ## Runs -/

/-- The pages of a window have numbers of 44 bits, and nobody else unmaps the
table. -/
def Op.Fits (s : System) : Op → Prop
  | .allocateTces start size _ _ => start / PAGESIZE + numTces size ≤ 2 ^ 44
  | .devUnmap ea => s.mgr.ivIsTceTableInitDone = true → ¬ s.segment.outside ea →
      s.segment.slot ea ≠ s.segment.slot s.mgr.ivTceTableVaAddr
  | _ => True

/-- A call that meets the condition. -/
def FittingStep (s : System) (op : Op) (s' : System) : Prop := Step s op s' ∧ op.Fits s

/-- The invariant of the manager, and the table is where it was mapped. -/
structure System.Inv (s : System) : Prop where
  mgr : Tce.Inv s.mgr
  mapped : s.mgr.ivIsTceTableInitDone = true → s.segment.Holds s.mgr.ivTceTableVaAddr

theorem System.Inv.step {s s' : System} {op : Op} (h : s.Inv) (hstep : FittingStep s op s') :
    s'.Inv := by
  obtain ⟨hstep, hfits⟩ := hstep
  cases hstep with
  | @allocateTces start size rwNotRO segment segment' addr mgr r hmap hcall =>
    refine ⟨h.mgr.allocateTces hfits hcall, fun hdone => ?_⟩
    obtain ⟨hplaced, hentries⟩ := allocateTces_placed hcall
    dsimp only at hdone ⊢
    cases hold : s.mgr.ivIsTceTableInitDone with
    | true =>
      rw [(hplaced.kept hold).2, if_neg (by simp)]
      exact h.mapped hold
    | false =>
      obtain ⟨hva, hne, hsize⟩ := hplaced.new hold hdone
      have hpos := hentries hold hdone
      rw [if_pos ⟨hdone, by simp⟩, hva]
      cases haddr : addr with
      | none => exact absurd (by rw [haddr]; rfl) hne
      | some ea =>
        rw [haddr] at hmap
        refine DeviceSegment.holds_devMap ?_ hmap
        unfold MAX_TCE_TABLE_SIZE at hsize
        unfold alignPage PAGESIZE
        omega
  | @deallocateTces token mgr errl hcall =>
    have haligned : token % PAGESIZE = 0 := by
      by_contra hne
      unfold UtilTceMgr.deallocateTces at hcall
      rw [if_pos hne] at hcall
      cases hcall
    obtain ⟨mgr', hcall', hinv⟩ := h.mgr.deallocateTces haligned
    rw [hcall] at hcall'
    cases hcall'
    obtain ⟨hinit, hva⟩ := deallocateTces_kept hcall
    refine ⟨hinv, fun hdone => ?_⟩
    dsimp only at hdone ⊢
    rw [hva]
    exact h.mapped (hinit.symm.trans hdone)
  | @disableTces segment' rc call hunmap =>
    have hrc : s.mgr.ivTceTableVaAddr ≠ 0 ∧ s.mgr.ivIsTceTableInitDone = true → rc = 0 := by
      intro hmapped
      have hzero := (h.mapped hmapped.2).devUnmap
      rwa [hunmap] at hzero
    obtain ⟨hinv, hno⟩ := h.mgr.disableTces hrc
    refine ⟨hinv, fun hdone => ?_⟩
    dsimp only at hdone
    rw [hno] at hdone
    cases hdone
  | @devMap ra size nonCI guarded segment' addr hmap =>
    refine ⟨h.mgr, fun hdone => ?_⟩
    have hholds := (h.mapped hdone).devMap_other ra size nonCI guarded
    rwa [hmap] at hholds
  | @devUnmap ea segment' rc call hunmap =>
    refine ⟨h.mgr, fun hdone => ?_⟩
    have hholds := (h.mapped hdone).devUnmap_other (hfits hdone)
    rwa [hunmap] at hholds

theorem Inv.owned (h : Inv s) : Owned s where
  inside := fun a ha => (h.window a ha).inside
  disjoint := h.disjoint
  access := by
    intro hva i hi
    rw [← isFree_eq_false]
    exact h.access hva i hi
  unmapped := by
    intro hva
    refine h.unmapped ?_
    by_contra hdone
    exact (h.mapped (by simpa using hdone)).1 hva
  pages := fun a ha => (h.window a ha).pages
  starts := h.starts
  release := by
    intro token haligned
    obtain ⟨s', hcall, -⟩ := h.deallocateTces haligned
    exact ⟨s', hcall⟩

/-- In a run whose calls meet the condition the map and the table agree in
every state, and the table can be unmapped. -/
theorem owned_of_run {tableAddr tableSize : Nat} {memory : Nat → TceEntry}
    {segment : DeviceSegment} {ops : List Op} {s : System}
    (hrun : Run FittingStep ⟨UtilTceMgr.init tableAddr tableSize memory, segment⟩ ops s) :
    Owned s.mgr ∧ (s.mgr.ivIsTceTableInitDone = true →
      (s.segment.devUnmap s.mgr.ivTceTableVaAddr).2.1 = 0) := by
  have hinv : s.Inv := by
    refine hrun.invariant ⟨inv_init tableAddr tableSize memory, fun hdone => ?_⟩
      fun _ _ _ hs hstep => hs.step hstep
    cases hdone
  exact ⟨hinv.mgr.owned, fun hdone => (hinv.mapped hdone).devUnmap⟩

/-- A table of four entries, and a device segment without devices. -/
def smallTable : System where
  mgr := UtilTceMgr.init 0 32 fun _ => TceEntry.zero
  segment := DeviceSegment.init ⟨2, by decide⟩

theorem devMap_smallTable :
    smallTable.segment.devMap 0 0x1000 true false =
      (⟨smallTable.segment.segId, Function.update smallTable.segment.ivMmioMap 0
        ⟨0, true, false, 0x1000⟩⟩, some (2 * VMM_SEGMENT_SIZE)) := by
  have hfree : (List.range MMIO_MAP_DEVICES).find? smallTable.segment.slotFree = some 0 := by decide
  unfold DeviceSegment.devMap
  rw [if_pos (by decide), hfree]
  rfl

/-- Two windows are given out, the first is given back and its entries are
used again. -/
theorem owned_of_run_reuse :
    ∃ s, Run FittingStep smallTable
        [.allocateTces 0x1000 0x2000 true smallTable.segment,
          .allocateTces 0x8000 0x800 false smallTable.segment, .deallocateTces 0,
          .allocateTces 0x5000 0x1000 true smallTable.segment] s ∧
      s.mgr.ivAllocatedAddrs = [(0, ⟨0x5000, 0x1000⟩), (0x2000, ⟨0x8000, 0x800⟩)] ∧
      Owned s.mgr := by
  have hfits : 0x1000 / PAGESIZE + numTces 0x2000 ≤ 2 ^ 44 ∧
      0x8000 / PAGESIZE + numTces 0x800 ≤ 2 ^ 44 ∧ 0x5000 / PAGESIZE + numTces 0x1000 ≤ 2 ^ 44 := by
    decide
  have hrun : ∃ s, Run FittingStep smallTable
        [.allocateTces 0x1000 0x2000 true smallTable.segment,
          .allocateTces 0x8000 0x800 false smallTable.segment, .deallocateTces 0,
          .allocateTces 0x5000 0x1000 true smallTable.segment] s ∧
      s.mgr.ivAllocatedAddrs = [(0, ⟨0x5000, 0x1000⟩), (0x2000, ⟨0x8000, 0x800⟩)] :=
    ⟨_, .cons ⟨.allocateTces devMap_smallTable rfl, hfits.1⟩
      (.cons ⟨.allocateTces devMap_smallTable rfl, hfits.2.1⟩ (.cons ⟨.deallocateTces rfl, trivial⟩
        (.cons ⟨.allocateTces devMap_smallTable rfl, hfits.2.2⟩ .nil))), rfl⟩
  obtain ⟨s, hrun, hmap⟩ := hrun
  exact ⟨s, hrun, hmap, (owned_of_run hrun).1⟩

/-- The second page of a window at the end of the real memory is taken for
page 0. -/
theorem not_owned_outside :
    ∃ s, Run Step smallTable
        [.allocateTces 0x00FFFFFFFFFFF000 0x2000 true smallTable.segment] s ∧
      ¬ Owned s.mgr ∧ (s.mgr.table 1).realPageNumber = 0 ∧
      (s.mgr.deallocateTces 0).map Prod.snd = some (some .UTIL_TCE_ENTRY_NOT_CONTIGUOUS) := by
  refine ⟨_, .cons (.allocateTces devMap_smallTable rfl) .nil, ?_, rfl, rfl⟩
  intro howned
  obtain ⟨s', hfree⟩ := howned.release 0 rfl
  have herr := congrArg (Option.map Prod.snd) hfree
  cases herr

end Hostboot.Tce
