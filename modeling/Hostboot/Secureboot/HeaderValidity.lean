import Hostboot.Secureboot.ContainerHeader
import Mathlib.Data.List.Induction

/-!
# What a container header object says after several headers

One `ContainerHeader` is used for the headers of several images, with
`setHeader` and `setFakeHeader`.  After each call its validity should say
whether the call has accepted the header, and after a call that has rejected
one nothing should be left of the headers accepted before (`Lawful`).

`initVars` does not reset the validity, the flags and the size of the software
keys.  A header that is rejected before `validate` sees it leaves the validity
and the flags of the call before, which is against the law exactly when that
call has accepted its header (`lawful_iff_undisturbed`).
-/

namespace Hostboot.Secureboot

open Hostboot.Lib ContainerHeader

/-! ## Calls -/

/-- A call on the object. -/
inductive Call where
  | setHeader (header : Mem)
  | setFakeHeader (totalSize : UInt64) (compId : Bytes)

namespace Call

/-- The call. -/
def on : Call → ContainerHeader → Parse × Option ReasonCode
  | setHeader header, self => self.setHeader header
  | setFakeHeader totalSize compId, self => self.setFakeHeader totalSize compId

attribute [grind =] on

/-- The object after the call. -/
def after (c : Call) (self : ContainerHeader) : ContainerHeader := (c.on self).1.self

attribute [grind =] after

/-- The error log that the call returns. -/
def errl (c : Call) (self : ContainerHeader) : Option ReasonCode := (c.on self).2

attribute [grind =] errl

/-- The header is rejected before its flags are parsed. -/
def Early : Call → Prop
  | setHeader header => Secureboot.Early header
  | setFakeHeader _ _ => False

attribute [grind =] Early

theorem early_setHeader (header : Mem) :
    (setHeader header).Early = Secureboot.Early header := by rw [Early]

theorem after_setHeader (header : Mem) (self : ContainerHeader) :
    (setHeader header).after self = (parseHeader header self.initVars).1.self := by
  rw [after, on, ContainerHeader.setHeader]

theorem errl_setHeader (header : Mem) (self : ContainerHeader) :
    (setHeader header).errl self = (parseHeader header self.initVars).2 := by
  rw [errl, on, ContainerHeader.setHeader]

theorem after_setFakeHeader (totalSize : UInt64) (compId : Bytes) (self : ContainerHeader) :
    (setFakeHeader totalSize compId).after self
      = (self.setFakeHeader totalSize compId).1.self := by rw [after, on]

theorem errl_setFakeHeader (totalSize : UInt64) (compId : Bytes) (self : ContainerHeader) :
    (setFakeHeader totalSize compId).errl self = (self.setFakeHeader totalSize compId).2 := by
  rw [errl, on]

end Call

/-- The object after some calls. -/
def run (self : ContainerHeader) (calls : List Call) : ContainerHeader :=
  calls.foldl (fun self c => c.after self) self

attribute [grind =] run

/-- The calls that return an error log. -/
def rejected (self : ContainerHeader) : List Call → List Call
  | [] => []
  | c :: calls =>
    if (c.errl self).isSome then c :: rejected (c.after self) calls
    else rejected (c.after self) calls

attribute [grind =] rejected

/-- What a header leaves in force. -/
def inForce (self : ContainerHeader) : Bool × SbFlags × Nat :=
  (self.isValid, self.sbFlags, self.totalSwKeysSize)

attribute [grind =] inForce

/-- After the calls `pre` and the call `c` on a new object. -/
structure Lawful (pre : List Call) (c : Call) : Prop where
  /-- The object is valid exactly when the call has accepted the header. -/
  valid : (run .new (pre ++ [c])).isValid = true ↔ c.errl (run .new pre) = none
  /-- After a rejected header it is as if no header had been accepted before. -/
  no_trace : c.errl (run .new pre) ≠ none →
    inForce (run .new (pre ++ [c])) = inForce (run .new (rejected .new (pre ++ [c])))

/-- The call comes when there is no accepted header, or its header is not rejected early. -/
def Undisturbed (pre : List Call) (c : Call) : Prop :=
  ¬ (c.Early ∧ (run .new pre).isValid = true)

@[simp] theorem run_append (self : ContainerHeader) (pre : List Call) (c : Call) :
    run self (pre ++ [c]) = c.after (run self pre) := by
  simp [run]

theorem rejected_append (self : ContainerHeader) (pre : List Call) (c : Call) :
    rejected self (pre ++ [c])
      = rejected self pre ++ if (c.errl (run self pre)).isSome then [c] else [] := by
  induction pre generalizing self with
  | nil => rfl
  | cons d pre ih =>
    have hrun : run self (d :: pre) = run (d.after self) pre := rfl
    rw [List.cons_append, rejected, rejected, ih, hrun]
    split
    · rw [List.cons_append]
    · rfl

/-! ## One call -/

theorem sbFlags_of_late {hdr : Mem} (h : ¬ Early hdr) (self : ContainerHeader) :
    (parseHeader hdr self).1.self.sbFlags
      = (let hw := hdr.get prefixHdrPlace RomPrefixHeaderRaw.flags.field
        let sw := hdr.get (swHdrPlace hdr) RomSwHeaderRaw.flags.field
        { hwHbFw := hw &&& HB_FW_FLAG != 0
          hwOpal := hw &&& OPAL_FLAG != 0
          hwPhyp := hw &&& PHYP_FLAG != 0
          hwLabOverride := hw &&& LAB_OVERRIDE_FLAG != 0
          hwKeyTransition := hw &&& KEY_TRANSITION_FLAG != 0
          swHash := sw &&& HASH_PAGE_TABLE_FLAG != 0 }) := by
  rw [parseHeader_late h, ← prefixHdr_atSigs self (by decide), ← swHdr_atSigs self (by decide)]
  rfl

theorem inForce_of_late {hdr : Mem} (h : ¬ Early hdr) (self other : ContainerHeader) :
    inForce (parseHeader hdr self).1.self = inForce (parseHeader hdr other).1.self := by
  unfold inForce
  rw [isValid_of_late h, isValid_of_late h, sbFlags_of_late h, sbFlags_of_late h,
    totalSwKeysSize_of_late h, totalSwKeysSize_of_late h]

theorem inForce_setFakeHeader (totalSize : UInt64) (compId : Bytes)
    (self other : ContainerHeader) :
    inForce (self.setFakeHeader totalSize compId).1.self
      = inForce (other.setFakeHeader totalSize compId).1.self := by
  have hlate (s : ContainerHeader) := not_early_fake s.initVars totalSize compId
  have hflags (s : ContainerHeader) :
      (s.fake totalSize compId).get fakeSwHdrPlace RomSwHeaderRaw.flags.field
        = (fakeSwHdr totalSize compId).get 0 RomSwHeaderRaw.flags.field :=
    congrArg Wire.decode (fake_swHdr (by decide))
  unfold inForce
  rw [isValid_setFakeHeader, isValid_setFakeHeader, setFakeHeader_eq, setFakeHeader_eq,
    sbFlags_of_late (hlate self), sbFlags_of_late (hlate other),
    totalSwKeysSize_of_late (hlate self), totalSwKeysSize_of_late (hlate other),
    get_prefixHdr_fake _ _ _ (by decide), get_prefixHdr_fake _ _ _ (by decide), swHdrPlace_fake,
    swHdrPlace_fake, hflags, hflags, swKeyCount_fake, swKeyCount_fake]

namespace Call

theorem isValid_after_of_early {c : Call} (h : c.Early) (self : ContainerHeader) :
    c.errl self ≠ none ∧ (c.after self).isValid = self.isValid := by
  cases c with
  | setHeader header =>
    rw [early_setHeader] at h
    rw [errl_setHeader, after_setHeader]
    have hearly := parseHeader_early h self.initVars
    exact ⟨hearly.1, hearly.2.1⟩
  | setFakeHeader totalSize compId => exact h.elim

/-- What a header that is rejected early leaves in force is up to what was in force. -/
theorem inForce_after_of_early {c : Call} (h : c.Early) {self other : ContainerHeader}
    (hsame : inForce self = inForce other) : inForce (c.after self) = inForce (c.after other) := by
  cases c with
  | setHeader header =>
    rw [early_setHeader] at h
    rw [after_setHeader, after_setHeader]
    obtain ⟨-, hvalid, hflags, hsize⟩ := parseHeader_early h self.initVars
    obtain ⟨-, hvalid', hflags', hsize'⟩ := parseHeader_early h other.initVars
    obtain ⟨hv, hf, hs⟩ : self.initVars.ivIsValid = other.initVars.ivIsValid ∧
        self.initVars.ivSbFlags = other.initVars.ivSbFlags ∧
        self.initVars.ivTotalSwKeysSize = other.initVars.ivTotalSwKeysSize := by
      simpa [inForce, isValid, sbFlags, totalSwKeysSize, initVars] using hsame
    have hsize_eq : (parseHeader header self.initVars).1.self.ivTotalSwKeysSize
        = (parseHeader header other.initVars).1.self.ivTotalSwKeysSize := by
      rw [hsize, hsize']
      split
      · rfl
      · exact hs
    unfold inForce isValid sbFlags totalSwKeysSize
    rw [hsize_eq, hvalid, hvalid', hflags, hflags', hv, hf]
  | setFakeHeader totalSize compId => exact h.elim

theorem isValid_after_of_late {c : Call} (h : ¬ c.Early) (self : ContainerHeader) :
    (c.after self).isValid = true ↔ c.errl self = none := by
  have hiff (b : Bool) :
      b = true ↔ (if b then none else some ReasonCode.RC_CONT_HDR_INVALID) = none := by
    cases b <;> simp
  cases c with
  | setHeader header =>
    rw [early_setHeader] at h
    rw [after_setHeader, errl_setHeader, isValid_of_late h, err_of_late h]
    exact hiff _
  | setFakeHeader totalSize compId =>
    rw [after_setFakeHeader, errl_setFakeHeader, isValid_setFakeHeader, err_setFakeHeader]
    exact hiff _

theorem inForce_after_of_late {c : Call} (h : ¬ c.Early) (self other : ContainerHeader) :
    inForce (c.after self) = inForce (c.after other) := by
  cases c with
  | setHeader header =>
    rw [early_setHeader] at h
    rw [after_setHeader, after_setHeader]
    exact inForce_of_late h self.initVars other.initVars
  | setFakeHeader totalSize compId =>
    rw [after_setFakeHeader, after_setFakeHeader]
    exact inForce_setFakeHeader totalSize compId self other

end Call

/-! ## Runs -/

/-- A run whose headers are rejected early only when no header has been accepted before. -/
def Good (calls : List Call) : Prop :=
  ∀ pre c, pre ++ [c] <+: calls → Undisturbed pre c

theorem inForce_run {calls : List Call} (hgood : Good calls)
    (hvalid : (run .new calls).isValid = false) :
    inForce (run .new calls) = inForce (run .new (rejected .new calls)) := by
  induction calls using List.reverseRecOn with
  | nil => rfl
  | append_singleton pre c ih =>
    have hpre : Good pre := fun q d hq => hgood q d (hq.trans (List.prefix_append pre [c]))
    have hund : Undisturbed pre c := hgood pre c (List.prefix_refl _)
    rw [run_append] at hvalid ⊢
    by_cases hearly : c.Early
    · obtain ⟨herr, hkeep⟩ := Call.isValid_after_of_early hearly (run .new pre)
      rw [rejected_append, if_pos (Option.isSome_iff_ne_none.mpr herr), run_append]
      refine Call.inForce_after_of_early hearly (ih hpre ?_)
      rw [← hkeep, hvalid]
    · have herr : c.errl (run .new pre) ≠ none := fun hok => by
        rw [(Call.isValid_after_of_late hearly _).mpr hok] at hvalid
        exact absurd hvalid (by decide)
      rw [rejected_append, if_pos (Option.isSome_iff_ne_none.mpr herr), run_append]
      exact Call.inForce_after_of_late hearly _ _

theorem lawful_of_good {pre : List Call} {c : Call} (hgood : Good (pre ++ [c])) : Lawful pre c := by
  have hund : Undisturbed pre c := hgood pre c (List.prefix_refl _)
  have hvalid : (run .new (pre ++ [c])).isValid = true ↔ c.errl (run .new pre) = none := by
    rw [run_append]
    by_cases hearly : c.Early
    · obtain ⟨herr, hkeep⟩ := Call.isValid_after_of_early hearly (run .new pre)
      rw [hkeep]
      exact iff_of_false (fun hv => hund ⟨hearly, hv⟩) herr
    · exact Call.isValid_after_of_late hearly _
  refine ⟨hvalid, fun herr => inForce_run hgood ?_⟩
  exact Bool.eq_false_iff.mpr fun hv => herr (hvalid.mp hv)

/-- The law holds after every call of a run exactly when no header that is rejected early
comes while there is an accepted one. -/
theorem lawful_iff_undisturbed (calls : List Call) :
    (∀ pre c, pre ++ [c] <+: calls → Lawful pre c)
      ↔ ∀ pre c, pre ++ [c] <+: calls → Undisturbed pre c := by
  constructor
  · intro hlawful pre c hpre
    rintro ⟨hearly, hv⟩
    obtain ⟨herr, hkeep⟩ := Call.isValid_after_of_early hearly (run .new pre)
    refine herr ((hlawful pre c hpre).valid.mp ?_)
    rw [run_append, hkeep, hv]
  · intro hund pre c hpre
    exact lawful_of_good fun q d hq => hund q d (hq.trans hpre)

/-- A header without the magic number. -/
def zeros : Mem := fun _ => 0

/-- A header without the magic number comes behind the one of an image. -/
theorem still_valid_after_zeros :
    ¬ ∀ calls pre c, pre ++ [c] <+: calls → Lawful pre c := by
  intro h
  have hlaw := h [.setFakeHeader 1 [], .setHeader zeros] [.setFakeHeader 1 []] (.setHeader zeros)
    (List.prefix_refl _)
  have hearly : (Call.setHeader zeros).Early := by
    rw [Call.early_setHeader]
    exact Or.inl (by decide)
  obtain ⟨herr, hkeep⟩ :=
    Call.isValid_after_of_early hearly (run .new [.setFakeHeader 1 []])
  refine herr (hlaw.valid.mp ?_)
  have hrun : run .new [.setFakeHeader 1 []] = (Call.setFakeHeader 1 []).after .new := by
    rw [run, List.foldl_cons, List.foldl_nil]
  rw [run_append, hkeep, hrun, Call.after_setFakeHeader, isValid_setFakeHeader]
  rfl

end Hostboot.Secureboot
