import Hostboot.Vmm.Block

/-!
# Setting the permissions of a range

`Block::mmSetPermission` (`src/kernel/block.C`) sets the permissions of the
pages of a range.  It rounds the start down to a page and the size up to
pages, each on its own, so a range that starts inside a page can reach one
page further than it works on; `removePages` adds the offset before it
rounds.  And it compares the end of the range with nothing, so it goes on
behind the entries of the block.

`ivPtes` stands for the memory from the first entry of the block on, so an
index from `ivPages` on is memory behind the entries.
-/

namespace Hostboot.Vmm

/-! ## The functions of the source -/

/-- The flags of `PAGE_PERMISSIONS` (`src/include/sys/mm.h`). -/
def READ_ONLY : Nat := 0x01
def WRITABLE : Nat := 0x02
def EXECUTABLE : Nat := 0x04
def WRITE_TRACKED : Nat := 0x08
def ALLOCATE_FROM_ZERO : Nat := 0x10
def NO_ACCESS : Nat := 0x40

/-- Whether a flag of an access type is set. -/
def hasAccess (accessType flag : Nat) : Bool := accessType &&& flag ≠ 0

/-- `Block::getPermission`. -/
def ShadowPTE.getPermission (spte : ShadowPTE) : Nat :=
  if spte.noAccess then NO_ACCESS
  else if spte.readable && !spte.executable && !spte.writable then READ_ONLY
  else
    (if spte.writable then WRITABLE else 0) ||| (if spte.executable then EXECUTABLE else 0) |||
      (if spte.trackWrite then WRITE_TRACKED else 0) |||
      (if spte.allocateFromZero then ALLOCATE_FROM_ZERO else 0)

/-- The first part of `setPermSPTE`: who may read, write and execute.  `none`
is `-EINVAL`, and the entry stays as it is. -/
def ShadowPTE.setReadWriteExecute (spte : ShadowPTE) (accessType : Nat) : Option ShadowPTE :=
  if hasAccess accessType READ_ONLY then
    if hasAccess accessType WRITABLE || hasAccess accessType EXECUTABLE ||
        hasAccess accessType WRITE_TRACKED || hasAccess accessType ALLOCATE_FROM_ZERO then none
    else some { spte with readable := true, executable := false, writable := false }
  else if hasAccess accessType WRITABLE then
    if hasAccess accessType EXECUTABLE then none
    else some { spte with readable := true, writable := true, executable := false }
  else if hasAccess accessType EXECUTABLE then
    some { spte with readable := true, executable := true, writable := false }
  else some spte

/-- `Block::setPermSPTE`: the entry, and whether the call succeeds.  A call
that fails may have changed a part of the entry. -/
def setPermSPTE (writeMsgHdlr : Bool) (spte : ShadowPTE) (accessType : Nat) : ShadowPTE × Bool :=
  match spte.setReadWriteExecute accessType with
  | none => (spte, false)
  | some spte =>
    if hasAccess accessType WRITE_TRACKED && (spte.getPermission = READ_ONLY || !writeMsgHdlr) then
      (spte, false)
    else
      let spte := { spte with trackWrite := hasAccess accessType WRITE_TRACKED }
      if hasAccess accessType ALLOCATE_FROM_ZERO && spte.getPermission = READ_ONLY then
        (spte, false)
      else
        let spte := { spte with allocateFromZero := hasAccess accessType ALLOCATE_FROM_ZERO }
        if hasAccess accessType NO_ACCESS then
          ({ spte with
              readable := false, executable := false, writable := false,
              allocateFromZero := false, trackWrite := false }, true)
        else (spte, true)

/-- How a call of `mmSetPermission` ends: whether it returns zero, the block,
and the entries it wrote. -/
structure Permitted where
  success : Bool
  kernel : Kernel
  written : List Nat

namespace Kernel

/-- `Block::isContained`. -/
def isContained (k : Kernel) (addr : Nat) : Bool :=
  k.ivBaseAddr ≤ addr && addr < k.ivBaseAddr + k.ivPages * PAGESIZE

/-- One round of the loop of `mmSetPermission` and the rounds after it. -/
def setPermissions (accessType : Nat) : List Nat → Kernel → Permitted
  | [], k => ⟨true, k, []⟩
  | i :: rest, k =>
    let k := if (k.ivPtes i).present then k.delEntry i else k
    let (spte, success) := setPermSPTE k.ivMsgHdlrs (k.ivPtes i) accessType
    let k := k.setPte i spte
    if success then
      let r := setPermissions accessType rest k
      { r with written := i :: r.written }
    else ⟨false, k, [i]⟩

/-- How many pages `mmSetPermission` works on. -/
def permissionCount (va size : Nat) : Nat :=
  let alignedVa := alignPageDown va
  let alignedSize := alignPage64 size
  let alignedSize := if size = 0 then add64 alignedSize PAGESIZE else alignedSize
  (add64 alignedVa alignedSize - alignedVa) / PAGESIZE

/-- `Block::mmSetPermission` of the last block of a chain. -/
def mmSetPermission (k : Kernel) (va size accessType : Nat) : Permitted :=
  let alignedVa := alignPageDown va
  if k.isContained alignedVa then
    setPermissions accessType
      (List.range' ((alignedVa - k.ivBaseAddr) / PAGESIZE) (permissionCount va size)) k
  else ⟨false, k, []⟩

/-! ## What the loop does -/

/-- The entry `i` accepts the access type. -/
def Accepts (k : Kernel) (accessType i : Nat) : Prop :=
  (setPermSPTE k.ivMsgHdlrs (k.ivPtes i) accessType).2 = true

/-- The entry `i` has the permissions of the access type already. -/
def Has (k : Kernel) (accessType i : Nat) : Prop :=
  setPermSPTE k.ivMsgHdlrs (k.ivPtes i) accessType = (k.ivPtes i, true)

@[simp] theorem setPte_ivMsgHdlrs (k : Kernel) (i : Nat) (spte : ShadowPTE) :
    (k.setPte i spte).ivMsgHdlrs = k.ivMsgHdlrs := rfl

theorem setPte_ivPtes (k : Kernel) (i : Nat) (spte : ShadowPTE) :
    (k.setPte i spte).ivPtes = Function.update k.ivPtes i spte := rfl

theorem dropped_ivPtes (k : Kernel) (i : Nat) :
    (if (k.ivPtes i).present then k.delEntry i else k).ivPtes = k.ivPtes := by
  split <;> rfl

theorem dropped_ivMsgHdlrs (k : Kernel) (i : Nat) :
    (if (k.ivPtes i).present then k.delEntry i else k).ivMsgHdlrs = k.ivMsgHdlrs := by
  split <;> rfl

/-- The loop succeeds when every entry accepts the access type; then it has
written these entries, and no other entry changed. -/
theorem setPermissions_spec (accessType : Nat) {l : List Nat} (hl : l.Nodup) (k : Kernel) :
    ((setPermissions accessType l k).success = true ↔ ∀ i ∈ l, k.Accepts accessType i) ∧
    ((setPermissions accessType l k).success = true →
      (setPermissions accessType l k).written = l ∧
      (∀ i ∈ l, (setPermissions accessType l k).kernel.ivPtes i =
        (setPermSPTE k.ivMsgHdlrs (k.ivPtes i) accessType).1) ∧
      ∀ i, i ∉ l → (setPermissions accessType l k).kernel.ivPtes i = k.ivPtes i) := by
  induction l generalizing k with
  | nil => simp [setPermissions]
  | cons i rest ih =>
    have hne : ∀ j ∈ rest, j ≠ i := fun j hj heq => (List.nodup_cons.mp hl).1 (heq ▸ hj)
    rw [setPermissions]
    simp only [dropped_ivPtes, dropped_ivMsgHdlrs]
    set spte := setPermSPTE k.ivMsgHdlrs (k.ivPtes i) accessType with hspte
    set k' := (if (k.ivPtes i).present then k.delEntry i else k).setPte i spte.1 with hk'
    have hptes : k'.ivPtes = Function.update k.ivPtes i spte.1 := by
      rw [hk', setPte_ivPtes, dropped_ivPtes]
    have hhdlr : k'.ivMsgHdlrs = k.ivMsgHdlrs := by
      rw [hk', setPte_ivMsgHdlrs, dropped_ivMsgHdlrs]
    have hrest : ∀ j ∈ rest, k'.ivPtes j = k.ivPtes j := by
      intro j hj
      rw [hptes, Function.update_of_ne (hne j hj)]
    obtain ⟨hiff, hdone⟩ := ih (List.nodup_cons.mp hl).2 k'
    cases hok : spte.2 with
    | false =>
      simp only [Bool.false_eq_true, if_false]
      refine ⟨⟨False.elim, fun hall => ?_⟩, False.elim⟩
      have hi := hall i List.mem_cons_self
      unfold Accepts at hi
      rw [← hspte, hok] at hi
      exact Bool.false_ne_true hi
    | true =>
      simp only [if_true]
      have haccepts : (∀ j ∈ rest, k'.Accepts accessType j) ↔
          ∀ j ∈ rest, k.Accepts accessType j := by
        refine forall₂_congr fun j hj => ?_
        unfold Accepts
        rw [hrest j hj, hhdlr]
      constructor
      · rw [hiff, haccepts, List.forall_mem_cons]
        exact (and_iff_right hok).symm
      · intro hsuccess
        obtain ⟨hwritten, hin, hout⟩ := hdone hsuccess
        refine ⟨by rw [hwritten], fun j hj => ?_, fun j hj => ?_⟩
        · rcases List.mem_cons.mp hj with heq | hmem
          · have hj' : j ∉ rest := heq ▸ (List.nodup_cons.mp hl).1
            rw [hout j hj', hptes, heq, Function.update_self]
          · rw [hin j hmem, hrest j hmem, hhdlr]
        · have hj' : j ∉ rest := fun hmem => hj (List.mem_cons_of_mem i hmem)
          have hji : j ≠ i := fun heq => hj (heq ▸ List.mem_cons_self)
          rw [hout j hj', hptes, Function.update_of_ne hji]

/-! ## When a call is exact -/

/-- The block is page-aligned and lies in the address space. -/
structure Placed (k : Kernel) : Prop where
  aligned : k.ivBaseAddr % PAGESIZE = 0
  fits : k.ivBaseAddr + k.ivPages * PAGESIZE < 2 ^ 64

/-- The page `i` of the block overlaps the range; a range of size zero is
taken for one byte. -/
def Overlaps (k : Kernel) (va size i : Nat) : Prop :=
  k.ivBaseAddr + i * PAGESIZE < va + max size 1 ∧ va < k.ivBaseAddr + (i + 1) * PAGESIZE

/-- The pages of the block that overlap the range have the permissions of the
access type, the other entries are what they were, and nothing was written
behind the entries of the block. -/
structure Exact (k : Kernel) (va size accessType : Nat) (r : Permitted) : Prop where
  inside : ∀ i < k.ivPages, k.Overlaps va size i →
    setPermSPTE k.ivMsgHdlrs (k.ivPtes i) accessType = (r.kernel.ivPtes i, true)
  outside : ∀ i < k.ivPages, ¬ k.Overlaps va size i → r.kernel.ivPtes i = k.ivPtes i
  bounded : ∀ i ∈ r.written, i < k.ivPages

/-- The first page that a call works on. -/
def firstPage (k : Kernel) (va : Nat) : Nat := (va - k.ivBaseAddr) / PAGESIZE

/-- The pages a call works on are no more than the bytes of the range need
when the range starts at a page. -/
theorem permissionCount_lt (va : Nat) {size : Nat} (hsize : size < 2 ^ 64) :
    permissionCount va size * PAGESIZE < max size 1 + PAGESIZE := by
  have hdiv : ∀ n a : Nat, (add64 a n - a) / PAGESIZE * PAGESIZE ≤ n := by
    intro n a
    have hle : add64 a n - a ≤ n := by
      have := Nat.mod_le (a + n) (2 ^ 64)
      unfold add64
      omega
    exact (Nat.div_mul_le_self _ _).trans hle
  have hround : alignPage64 size < size + PAGESIZE := by
    have hmod := Nat.mod_le (size + (PAGESIZE - 1)) (2 ^ 64)
    have hle := Nat.div_mul_le_self ((size + (PAGESIZE - 1)) % 2 ^ 64) PAGESIZE
    unfold alignPage64 add64
    unfold PAGESIZE at *
    omega
  unfold permissionCount
  by_cases hzero : size = 0
  · subst hzero
    have := hdiv PAGESIZE (alignPageDown va)
    simp only [if_true]
    unfold PAGESIZE at *
    exact lt_of_le_of_lt this (by decide)
  · simp only [if_neg hzero]
    have := hdiv (alignPage64 size) (alignPageDown va)
    omega

theorem firstPage_mul {k : Kernel} {va : Nat} (hva : k.isContained va) :
    k.ivBaseAddr + k.firstPage va * PAGESIZE ≤ va ∧
      va < k.ivBaseAddr + (k.firstPage va + 1) * PAGESIZE := by
  unfold isContained at hva
  simp only [Bool.and_eq_true, decide_eq_true_eq] at hva
  unfold firstPage
  unfold PAGESIZE at *
  omega

theorem overlaps_of_count {k : Kernel} {va size i : Nat} (hva : k.isContained va)
    (hsize : size < 2 ^ 64) (hlo : k.firstPage va ≤ i)
    (hhi : i < k.firstPage va + permissionCount va size) : k.Overlaps va size i := by
  have hcount := permissionCount_lt va hsize
  obtain ⟨hstart, hnext⟩ := firstPage_mul hva
  generalize k.firstPage va = first at *
  generalize permissionCount va size = count at *
  constructor
  · unfold PAGESIZE at *
    omega
  · have hmul := Nat.mul_le_mul_right PAGESIZE (Nat.succ_le_succ hlo)
    exact lt_of_lt_of_le hnext (Nat.add_le_add_left hmul _)

theorem firstPage_le {k : Kernel} {va size i : Nat} (hva : k.isContained va)
    (hi : k.Overlaps va size i) : k.firstPage va ≤ i := by
  obtain ⟨hstart, hnext⟩ := firstPage_mul hva
  have hafter := hi.2
  unfold PAGESIZE at *
  omega

theorem mmSetPermission_eq {k : Kernel} (hk : k.Placed) {va size accessType : Nat}
    (hva : k.isContained va) : k.mmSetPermission va size accessType =
      setPermissions accessType (List.range' (k.firstPage va) (permissionCount va size)) k := by
  have hal := hk.aligned
  have hcontained : k.isContained (alignPageDown va) = true := by
    unfold isContained alignPageDown at *
    simp only [Bool.and_eq_true, decide_eq_true_eq] at *
    unfold PAGESIZE at *
    omega
  have hfirst : (alignPageDown va - k.ivBaseAddr) / PAGESIZE = k.firstPage va := by
    unfold isContained at hva
    simp only [Bool.and_eq_true, decide_eq_true_eq] at hva
    unfold firstPage alignPageDown
    unfold PAGESIZE at *
    omega
  unfold mmSetPermission
  rw [if_pos hcontained, hfirst]

/-- A call that succeeds is exact if and only if the pages it works on lie in
the block and each page of the range that it does not work on has the
permissions already.  The first alternative says that the call fails. -/
theorem mmSetPermission_exact_iff {k : Kernel} (hk : k.Placed) {va size accessType : Nat}
    (hva : k.isContained va) (hsize : size < 2 ^ 64) :
    ((k.mmSetPermission va size accessType).success = true →
      k.Exact va size accessType (k.mmSetPermission va size accessType)) ↔
    ((∃ i, k.firstPage va ≤ i ∧ i < k.firstPage va + permissionCount va size ∧
        ¬ k.Accepts accessType i) ∨
      (k.firstPage va + permissionCount va size ≤ k.ivPages ∧
        ∀ i, k.firstPage va + permissionCount va size ≤ i → i < k.ivPages →
          k.Overlaps va size i → k.Has accessType i)) := by
  set first := k.firstPage va
  set count := permissionCount va size
  have hmem : ∀ i, i ∈ List.range' first count ↔ first ≤ i ∧ i < first + count := by
    intro i
    rw [List.mem_range'_1]
  have hnodup : (List.range' first count).Nodup := List.nodup_range'
  obtain ⟨hiff, hdone⟩ := setPermissions_spec accessType hnodup k
  rw [mmSetPermission_eq hk hva]
  constructor
  · intro hexact
    by_cases hall : ∀ i ∈ List.range' first count, k.Accepts accessType i
    · right
      have hsuccess := hiff.mpr hall
      obtain ⟨hwritten, -, hout⟩ := hdone hsuccess
      have h := hexact hsuccess
      constructor
      · -- The last page of the loop is written, so it lies in the block.
        by_contra hbeyond
        have hlast : first + count - 1 ∈ List.range' first count := by
          have hfirst : first < k.ivPages := by
            have := firstPage_mul hva
            unfold isContained at hva
            simp only [Bool.and_eq_true, decide_eq_true_eq] at hva
            unfold PAGESIZE at *
            omega
          rw [hmem]
          omega
        have := h.bounded _ (hwritten ▸ hlast)
        have := (hmem _).mp hlast
        omega
      · intro i hlo hi hoverlaps
        have hin := h.inside i hi hoverlaps
        have hnot : i ∉ List.range' first count := by
          rw [hmem]
          omega
        rw [hout i hnot] at hin
        exact hin
    · left
      push Not at hall
      obtain ⟨i, hi, hnot⟩ := hall
      exact ⟨i, ((hmem i).mp hi).1, ((hmem i).mp hi).2, hnot⟩
  · rintro (⟨i, hlo, hhi, hnot⟩ | ⟨hin, hhas⟩) hsuccess
    · exact absurd (hiff.mp hsuccess i ((hmem i).mpr ⟨hlo, hhi⟩)) hnot
    · have hall := hiff.mp hsuccess
      obtain ⟨hwritten, hset, hout⟩ := hdone hsuccess
      refine ⟨fun i hi hoverlaps => ?_, fun i hi hnot => ?_, fun i hi => ?_⟩
      · by_cases hloop : i ∈ List.range' first count
        · have haccepts := hall i hloop
          rw [hset i hloop]
          exact Prod.ext rfl haccepts
        · have hlo := firstPage_le hva hoverlaps
          rw [hmem] at hloop
          rw [hout i (by rw [hmem]; omega)]
          exact hhas i (by omega) hi hoverlaps
      · refine hout i fun hloop => hnot ?_
        obtain ⟨hlo, hhi⟩ := (hmem i).mp hloop
        exact overlaps_of_count hva hsize hlo hhi
      · rw [hwritten] at hi
        have := ((hmem i).mp hi).2
        omega

/-- A block of two writable pages without a device behind it. -/
def writablePages : Kernel :=
  Kernel.init 0 2 false
    (fun _ => ⟨0, false, true, true, false, false, false, false, 0⟩) ∅ (fun _ => 0)

theorem writablePages_placed : writablePages.Placed := by
  constructor <;> decide

/-- The second page of the block is no page of the range and has another
permission, which is no harm for a range that starts at a page. -/
theorem mmSetPermission_exact_iff_page :
    writablePages.isContained 0 = true ∧
      ((writablePages.mmSetPermission 0 4096 READ_ONLY).success = true →
        writablePages.Exact 0 4096 READ_ONLY (writablePages.mmSetPermission 0 4096 READ_ONLY)) := by
  have hva : writablePages.isContained 0 = true := by decide
  refine ⟨hva, (mmSetPermission_exact_iff writablePages_placed hva (by decide)).mpr (Or.inr ?_)⟩
  refine ⟨by decide, fun i hlo _ hoverlaps => ?_⟩
  have hone : 1 ≤ i := hlo
  have hbefore : i * 4096 < 4096 := by
    have := hoverlaps.1
    simpa [writablePages, Kernel.init, PAGESIZE] using this
  omega

/-- Two bytes on both sides of a page boundary: the call succeeds and the
second page stays writable.  A range that goes on behind the block: the call
succeeds and writes behind the entries. -/
theorem mmSetPermission_not_exact :
    ((writablePages.mmSetPermission 4095 2 READ_ONLY).success = true ∧
      ¬ writablePages.Exact 4095 2 READ_ONLY (writablePages.mmSetPermission 4095 2 READ_ONLY)) ∧
    ((writablePages.mmSetPermission 4096 4097 READ_ONLY).success = true ∧
      ¬ writablePages.Exact 4096 4097 READ_ONLY
        (writablePages.mmSetPermission 4096 4097 READ_ONLY)) := by
  refine ⟨⟨by decide, fun hexact => ?_⟩, ⟨by decide, fun hexact => ?_⟩⟩
  · have hsecond := hexact.inside 1 (by decide) (by constructor <;> decide)
    revert hsecond
    decide
  · have hbehind := hexact.bounded 2 (by decide)
    revert hbehind
    decide

end Kernel

end Hostboot.Vmm
