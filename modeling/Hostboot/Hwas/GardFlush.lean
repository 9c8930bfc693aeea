import Hostboot.Lib.Run
import Mathlib.Tactic.Common

/-!
# The write-in-progress flag of the guard partition

Before `_flush` writes a record it sets a flag in the header of the partition
and flushes the page of the header, and after the write it clears the flag the
same way.  A flag that is left in the PNOR tells the service processor that the
records are not to be trusted.

The partition is a list of pages, in memory and in the PNOR.  The PNOR writes
page by page, so a flush that fails may have written any of the pages it was
asked for.  `partly` lists the pages of such flushes, up to a flush that
rewrites them.
-/

namespace Hostboot.Hwas.GardFlush

def PAGE_SIZE : Nat := 4096
def SIZEOF_GARD_RECORD : Nat := 128
def SIZEOF_GARD_RECORDS_BINARY : Nat := 16

def GARD_FLAG_MASK_PNOR_WRITE_IN_PROGRESS : UInt8 := 1
def GARD_FLAGS_DEFAULT : UInt8 := 0xFF

/-- `GardFlagPnorWriteInProgress`. -/
inductive WriteInProgress
  | GARD_FLAG_PNOR_WRITE_IS_IN_PROGRESS | GARD_FLAG_PNOR_WRITE_NOT_IN_PROGRESS
  deriving DecidableEq, Repr

open WriteInProgress

def WriteInProgress.value : WriteInProgress → UInt8
  | GARD_FLAG_PNOR_WRITE_IS_IN_PROGRESS => 0
  | GARD_FLAG_PNOR_WRITE_NOT_IN_PROGRESS => 1

/-! ## The functions of the source -/

/-- The guard partition: the flags of its header and the content of its pages,
in memory and in the PNOR, with `pnor_corrupted` once it has been checked. -/
structure Partition (α : Type*) where
  iv_flags : UInt8
  memory : Nat → α
  pnorFlags : UInt8
  pnor : Nat → α
  pnorCorrupted : Option Bool
  partly : List Nat

/-- How a flush ends: well, or with an error after it has written some of the
pages. -/
inductive Outcome
  | ok
  | failed (written : List Nat)
  deriving DecidableEq, Repr

/-- Which build of the code runs: `__HOSTBOOT_RUNTIME`, `CONFIG_FSP_BUILD` and
the pages of the partition. -/
structure Build where
  runtime : Bool
  fspBuild : Bool
  pages : Nat

variable {α : Type*}

namespace Partition

/-- The flags of a header say that a write is in progress. -/
def inProgress (flags : UInt8) : Prop :=
  flags &&& GARD_FLAG_MASK_PNOR_WRITE_IN_PROGRESS = GARD_FLAG_PNOR_WRITE_IS_IN_PROGRESS.value

instance (flags : UInt8) : Decidable (inProgress flags) := inferInstanceAs (Decidable (_ = _))

/-- Pages reach the PNOR. -/
def write (p : Partition α) (pages : List Nat) : Partition α :=
  { p with
    pnor := fun k => if k ∈ pages then p.memory k else p.pnor k
    pnorFlags := if 0 ∈ pages then p.iv_flags else p.pnorFlags }

/-- The flush of some pages, with its error. -/
def flushPages (p : Partition α) (pages : List Nat) : Outcome → Partition α × Bool
  | .ok => ({ p.write pages with partly := p.partly.filter fun k => k ∉ pages }, false)
  | .failed written =>
    let written := pages.filter fun k => k ∈ written
    ({ p.write written with
        partly := if written ≠ [] ∧ written ≠ pages then p.partly ++ pages else p.partly }, true)

def setGuardWriteInProgress (p : Partition α) (writeInProgress : WriteInProgress)
    (outcome : Outcome) : Partition α × Bool :=
  if p.iv_flags &&& GARD_FLAG_MASK_PNOR_WRITE_IN_PROGRESS ≠ writeInProgress.value then
    flushPages { p with
      iv_flags := (p.iv_flags &&& ~~~GARD_FLAG_MASK_PNOR_WRITE_IN_PROGRESS)
        ||| writeInProgress.value } [0] outcome
  else (p, false)

/-- `runtime_check_pnor_corruption`. -/
def runtimeCheckPnorCorruption (p : Partition α) : Partition α × Bool :=
  match p.pnorCorrupted with
  | some corrupted => (p, corrupted)
  | none =>
    let corrupted := decide (inProgress p.iv_flags)
    ({ p with pnorCorrupted := some corrupted }, corrupted)

end Partition

/-- The pages of a record. -/
def recordPages (record : Nat) : List Nat :=
  let first := SIZEOF_GARD_RECORDS_BINARY + SIZEOF_GARD_RECORD * record
  List.range' (first / PAGE_SIZE)
    ((first + SIZEOF_GARD_RECORD - 1) / PAGE_SIZE - first / PAGE_SIZE + 1)

/-- A call of `_flush` for a record that has just been written in memory, with
the ends of the flushes it may make: of the flag, of the content, and of the
flag again. -/
structure Call (α : Type*) where
  record : Nat
  memory : Nat → α
  sectionFound : Bool
  setFlag : Outcome
  content : Outcome
  clearFlag : Outcome

/-- The pages that `_flush` writes for a record: at runtime the whole
partition. -/
def Build.flushed (build : Build) (record : Nat) : List Nat :=
  if build.runtime then List.range build.pages else recordPages record

/-- `_flush` of a record, from the flag on. -/
def flushRecord (build : Build) (p : Partition α) (call : Call α) : Partition α :=
  match p.setGuardWriteInProgress GARD_FLAG_PNOR_WRITE_IS_IN_PROGRESS call.setFlag with
  | (p, true) => p
  | (p, false) =>
    match p.flushPages (build.flushed call.record) call.content with
    | (p, true) => p
    | (p, false) =>
      (p.setGuardWriteInProgress GARD_FLAG_PNOR_WRITE_NOT_IN_PROGRESS call.clearFlag).1

/-- `_flush` of a record. -/
def flush (build : Build) (p : Partition α) (call : Call α) : Partition α :=
  let p := { p with memory := call.memory }
  if !call.sectionFound then p
  else if build.runtime && !build.fspBuild then
    match p.runtimeCheckPnorCorruption with
    | (p, true) => p
    | (p, false) => flushRecord build p call
  else flushRecord build p call

/-! ## The flags and the pages behind one flush -/

/-- The flag is in the PNOR as long as pages there are partly written. -/
def Partition.Protected (p : Partition α) : Prop := p.partly ≠ [] → inProgress p.pnorFlags

namespace Partition

theorem and_or_masked (flags mask value : UInt8) (h : value &&& mask = value) :
    (flags &&& ~~~mask ||| value) &&& mask = value := by
  rw [← UInt8.toBitVec_inj] at h ⊢
  simp only [UInt8.toBitVec_and, UInt8.toBitVec_or, UInt8.toBitVec_not] at h ⊢
  ext i hi
  have hbit := congrArg (fun bits => bits.getLsbD i) h
  simp only [BitVec.getLsbD_and] at hbit
  simp only [BitVec.getElem_and, BitVec.getElem_or, BitVec.getElem_not]
  simp only [BitVec.getLsbD_eq_getElem hi] at hbit
  revert hbit
  cases value.toBitVec[i] <;> cases flags.toBitVec[i] <;> cases mask.toBitVec[i] <;> simp

theorem flags_set (flags : UInt8) (writeInProgress : WriteInProgress) :
    ((flags &&& ~~~GARD_FLAG_MASK_PNOR_WRITE_IN_PROGRESS) ||| writeInProgress.value)
      &&& GARD_FLAG_MASK_PNOR_WRITE_IN_PROGRESS = writeInProgress.value :=
  and_or_masked _ _ _ (by cases writeInProgress <;> rfl)

variable {p : Partition α} {outcome : Outcome}

theorem write_header (p : Partition α) : (p.write [0]).pnorFlags = p.iv_flags := by
  simp [write]

/-- A flush brings the flags to the PNOR as they are in memory, or not at
all. -/
theorem flushPages_pnorFlags (pages : List Nat) :
    (p.flushPages pages outcome).1.pnorFlags = p.iv_flags ∨
      (p.flushPages pages outcome).1.pnorFlags = p.pnorFlags := by
  cases outcome with
  | ok =>
    unfold flushPages write
    dsimp only
    split
    · exact Or.inl rfl
    · exact Or.inr rfl
  | failed written =>
    unfold flushPages write
    dsimp only
    split
    · exact Or.inl rfl
    · exact Or.inr rfl

/-- The page of the header is one page, so its flush leaves nothing partly
written. -/
theorem header_partly : ∀ k ∈ (p.flushPages [0] outcome).1.partly, k ∈ p.partly := by
  intro k hk
  cases outcome with
  | ok => exact (List.mem_filter.mp hk).1
  | failed written =>
    unfold flushPages at hk
    dsimp only at hk
    split at hk
    · rename_i hpart
      rw [List.filter_cons, List.filter_nil] at hpart
      split at hpart
      · exact absurd rfl hpart.2
      · exact absurd rfl hpart.1
    · exact hk

theorem setGuardWriteInProgress_ok {writeInProgress : WriteInProgress} {p' : Partition α}
    (h : p.setGuardWriteInProgress writeInProgress outcome = (p', false)) :
    p'.iv_flags &&& GARD_FLAG_MASK_PNOR_WRITE_IN_PROGRESS = writeInProgress.value ∧
      (p'.pnorFlags = p'.iv_flags ∨ p' = p) ∧ ∀ k ∈ p'.partly, k ∈ p.partly := by
  unfold setGuardWriteInProgress at h
  split at h
  · cases outcome with
    | ok =>
      cases h
      refine ⟨flags_set _ _, Or.inl ?_, fun k hk => (List.mem_filter.mp hk).1⟩
      exact write_header { p with iv_flags := _ }
    | failed written => cases h
  · rename_i hsame
    cases h
    exact ⟨Classical.not_not.mp hsame, Or.inr rfl, fun k hk => hk⟩

theorem setGuardWriteInProgress_protected (h : p.Protected) :
    (p.setGuardWriteInProgress GARD_FLAG_PNOR_WRITE_IS_IN_PROGRESS outcome).1.Protected := by
  unfold setGuardWriteInProgress
  split
  · intro hpartly
    have hold : p.partly ≠ [] := by
      intro hnil
      refine hpartly (List.eq_nil_iff_forall_not_mem.mpr fun k hk => ?_)
      have hmem := header_partly k hk
      rw [show ({ p with iv_flags := _ } : Partition α).partly = p.partly from rfl, hnil] at hmem
      exact List.not_mem_nil hmem
    rcases @flushPages_pnorFlags α { p with
        iv_flags := (p.iv_flags &&& ~~~GARD_FLAG_MASK_PNOR_WRITE_IN_PROGRESS)
          ||| GARD_FLAG_PNOR_WRITE_IS_IN_PROGRESS.value } outcome [0] with heq | heq
    · rw [heq]
      exact flags_set _ _
    · rw [heq]
      exact h hold
  · exact h

theorem setGuardWriteInProgress_partly {writeInProgress : WriteInProgress} (h : p.partly = []) :
    (p.setGuardWriteInProgress writeInProgress outcome).1.partly = [] := by
  unfold setGuardWriteInProgress
  split
  · refine List.eq_nil_iff_forall_not_mem.mpr fun k hk => ?_
    have hmem := header_partly k hk
    rw [show ({ p with iv_flags := _ } : Partition α).partly = p.partly from rfl, h] at hmem
    exact List.not_mem_nil hmem
  · exact h

end Partition

/-! ## Runs -/

/-- The calls that the protocol covers.  One whose content is written rewrites
all pages that are partly written, and one whose content is not written does
not find the flag set in memory alone. -/
def Call.Sound (build : Build) (p : Partition α) (call : Call α) : Prop :=
  match call.content with
  | .ok => ∀ k ∈ p.partly, k ∈ build.flushed call.record
  | .failed _ => Partition.inProgress p.iv_flags → Partition.inProgress p.pnorFlags

theorem flushRecord_protected {build : Build} {p : Partition α} {call : Call α}
    (h : p.Protected) (hsound : call.Sound build p) : (flushRecord build p call).Protected := by
  unfold flushRecord
  have hset := @Partition.setGuardWriteInProgress_protected α p call.setFlag h
  cases hfirst : p.setGuardWriteInProgress GARD_FLAG_PNOR_WRITE_IS_IN_PROGRESS call.setFlag with
  | mk p1 err =>
    rw [hfirst] at hset
    cases err with
    | true => exact hset
    | false =>
      obtain ⟨hflag, hpnor, hpartly⟩ := Partition.setGuardWriteInProgress_ok hfirst
      dsimp only
      unfold Call.Sound at hsound
      cases hcontent : call.content with
      | failed written =>
        -- the content fails with the flag in the PNOR
        rw [hcontent] at hsound
        have hin : Partition.inProgress p1.pnorFlags := by
          rcases hpnor with heq | heq
          · rw [heq]
            exact hflag
          · rw [heq] at hflag ⊢
            exact hsound hflag
        intro _
        rcases @Partition.flushPages_pnorFlags α p1 (.failed written)
          (build.flushed call.record) with heq | heq
        · exact (congrArg Partition.inProgress heq).mpr hflag
        · exact (congrArg Partition.inProgress heq).mpr hin
      | ok =>
        -- nothing is partly written any more
        rw [hcontent] at hsound
        have hnil : (p1.flushPages (build.flushed call.record) .ok).1.partly = [] := by
          refine List.filter_eq_nil_iff.mpr fun k hk => ?_
          simpa using hsound k (hpartly k hk)
        intro hne
        exact absurd (Partition.setGuardWriteInProgress_partly hnil) hne

theorem flush_protected {build : Build} {p : Partition α} {call : Call α} (h : p.Protected)
    (hsound : call.Sound build p) : (flush build p call).Protected := by
  unfold flush
  dsimp only
  split
  · exact h
  · split
    · unfold Partition.runtimeCheckPnorCorruption
      dsimp only
      cases p.pnorCorrupted with
      | some corrupted =>
        dsimp only
        cases corrupted with
        | true => exact h
        | false => exact flushRecord_protected h hsound
      | none =>
        dsimp only
        cases decide (Partition.inProgress p.iv_flags) with
        | true => exact h
        | false => exact flushRecord_protected h hsound
    · exact flushRecord_protected h hsound

/-- In a run of such calls the flag is in the PNOR whenever pages there are
partly written, whatever the flushes do. -/
theorem flag_protects (build : Build) {p0 p : Partition α} {calls : List (Call α)}
    (h0 : p0.Protected)
    (hrun : Lib.Run (fun p call p' => call.Sound build p ∧ p' = flush build p call) p0 calls p) :
    p.Protected :=
  hrun.invariant h0 fun p call p' h hstep => by
    rw [hstep.2]
    exact flush_protected h hstep.1

/-! ## The defect -/

/-- A partition of four pages that nothing is wrong with. -/
def clean : Partition Nat := ⟨GARD_FLAGS_DEFAULT, fun _ => 0, GARD_FLAGS_DEFAULT, fun _ => 0, none, []⟩

/-- A record on the pages 1 and 2 is written twice: the flush of the flag
fails, and then the flush of the content fails after one of its pages. -/
def flagNotWritten : List (Call Nat) :=
  [⟨63, fun _ => 1, true, .failed [], .ok, .ok⟩, ⟨63, fun _ => 1, true, .ok, .failed [1], .ok⟩]

/-- The flush of such a record fails after one of its pages, and then another
record is written. -/
def flagCleared : List (Call Nat) :=
  [⟨63, fun _ => 1, true, .ok, .failed [1], .ok⟩, ⟨0, fun _ => 1, true, .ok, .ok, .ok⟩]

/-- The flag is missing behind two short runs of the IPL.  In the first the flag is found
set in memory and is not written; in the second it is cleared by a call that writes other
pages. -/
theorem flag_lost :
    ¬(flagNotWritten.foldl (flush ⟨false, false, 4⟩) clean).Protected ∧
      ¬(flagCleared.foldl (flush ⟨false, false, 4⟩) clean).Protected := by
  unfold Partition.Protected
  decide

/-- The second call of `flagNotWritten`, had the first one written the flag. -/
theorem flag_protects_content :
    (flush ⟨true, false, 4⟩ clean ⟨63, fun _ => 1, true, .ok, .failed [1], .ok⟩).Protected := by
  have hsound : Call.Sound ⟨true, false, 4⟩ clean
      ⟨63, fun _ => 1, true, .ok, .failed [1], .ok⟩ := by
    show Partition.inProgress clean.iv_flags → Partition.inProgress clean.pnorFlags
    decide
  exact flag_protects ⟨true, false, 4⟩ (fun hne => absurd rfl hne) (.snoc .nil ⟨hsound, rfl⟩)

end Hostboot.Hwas.GardFlush
