import Hostboot.Trusted.LogMgr

/-!
# Errors of an append

`TpmLogMgr_addEvent` returns an error in three situations: there is no place
for a next event, the event does not fit, or the marshaller returned null.  In
the first two nothing has been touched.  In the third the place of the next
event has been overwritten with the null pointer, and every later event is
refused.

The marshaller returns null for an event with more than `HASH_COUNT` digests.
The size check in front of it counts at most `HASH_COUNT` digests, so it lets
such an event through.  An event field that is too long never gets there, as
the size check refuses it.

* `addEvent_refused`, `addEvent_lost` and `addEvent_appended` are the three
  outcomes of an append.
* `atomic_iff` says for which events and logs an error leaves the log as it
  was.
* `walk_appendAll` is the run: of any valid events, the log keeps those that
  were added without an error.
-/

namespace Hostboot.Trusted

open Lib

/-! ## The marshaller -/

namespace TcgPcrEvent2

variable {val : TcgPcrEvent2}

theorem logMarshal_next (m : Mem) (p : Nat) (hcount : val.digests.count.toNat ≤ HASH_COUNT)
    (hsize : val.event.eventSize.toNat ≤ MAX_TPM_LOG_MSG) :
    (val.logMarshal m p).2 = some (p + val.marshalSize) := by
  have hdigests := TpmlDigestValues.marshalSize_eq hcount
  have hevent := TpmEventField.length_bytes val.event
  rw [logMarshal, TpmlDigestValues.logMarshal_eq _ _ hcount]
  dsimp only
  rw [TpmEventField.logMarshal_eq _ _ hsize, marshalSize]
  show some _ = some _
  congr 1
  omega

theorem logMarshal_null (m : Mem) (p : Nat) (hcount : HASH_COUNT < val.digests.count.toNat) :
    (val.logMarshal m p).2 = none := by
  rw [logMarshal, TpmlDigestValues.logMarshal, if_pos hcount]

end TcgPcrEvent2

namespace TpmLogMgr

/-! ## The outcomes of an append -/

/-- The log has room for the event, and the event is no longer than a message
may be. -/
def Fits (s : TpmLogMgr) (ev : TcgPcrEvent2) : Prop :=
  s.logSize + ev.marshalSize ≤ s.logMaxSize ∧ ev.marshalSize ≤ MAX_TPM_LOG_MSG

/-- The size of the log, the place of the next event and the bytes of the log
are as before. -/
structure Kept (s s' : TpmLogMgr) : Prop where
  logSize : s'.logSize = s.logSize
  newEventPtr : s'.newEventPtr = s.newEventPtr
  bytes : ∀ x < s.logSize, s'.mem x = s.mem x

section Outcomes

variable {s : TpmLogMgr} {ev : TcgPcrEvent2}

theorem Fits.eventSize_le (h : s.Fits ev) : ev.event.eventSize.toNat ≤ MAX_TPM_LOG_MSG := by
  have hsize := h.2
  rw [TcgPcrEvent2.marshalSize, TpmEventField.marshalSize] at hsize
  omega

theorem addEvent_refused (h : s.newEventPtr = none ∨ ¬ s.Fits ev) :
    s.addEvent ev = (s, some .RC_TPMLOGMGR_ADDEVENT_FAIL) := by
  rw [TpmLogMgr.addEvent]
  cases hptr : s.newEventPtr with
  | none => rfl
  | some p =>
    rw [hptr] at h
    have hfull : s.logSize + ev.marshalSize > s.logMaxSize ∨ ev.marshalSize > MAX_TPM_LOG_MSG := by
      unfold Fits at h
      simp only [reduceCtorEq, false_or] at h
      omega
    dsimp only
    rw [if_pos hfull]

theorem addEvent_lost {p : Nat} (hptr : s.newEventPtr = some p) (hfits : s.Fits ev)
    (hcount : HASH_COUNT < ev.digests.count.toNat) :
    s.addEvent ev = ({ s with mem := (ev.logMarshal s.mem p).1, newEventPtr := none },
      some .RC_TPMLOGMGR_ADDEVENTMARSH_FAIL) := by
  have hroom : ¬ (s.logSize + ev.marshalSize > s.logMaxSize ∨ ev.marshalSize > MAX_TPM_LOG_MSG) := by
    unfold Fits at hfits
    omega
  have hnull := TcgPcrEvent2.logMarshal_null s.mem p hcount
  rw [TpmLogMgr.addEvent, hptr]
  dsimp only
  rw [if_neg hroom]
  rcases hmarshal : ev.logMarshal s.mem p with ⟨m, q⟩
  rw [hmarshal] at hnull
  dsimp only at hnull
  subst hnull
  rfl

theorem addEvent_appended {p : Nat} (hptr : s.newEventPtr = some p) (hfits : s.Fits ev)
    (hcount : ev.digests.count.toNat ≤ HASH_COUNT) :
    s.addEvent ev = ({ s with
      mem := (ev.logMarshal s.mem p).1
      newEventPtr := some (p + ev.marshalSize)
      logSize := s.logSize + ev.marshalSize }, none) := by
  have hroom : ¬ (s.logSize + ev.marshalSize > s.logMaxSize ∨ ev.marshalSize > MAX_TPM_LOG_MSG) := by
    unfold Fits at hfits
    omega
  have hnext := TcgPcrEvent2.logMarshal_next s.mem p hcount hfits.eventSize_le
  rw [TpmLogMgr.addEvent, hptr]
  dsimp only
  rw [if_neg hroom]
  rcases hmarshal : ev.logMarshal s.mem p with ⟨m, q⟩
  rw [hmarshal] at hnext
  dsimp only at hnext
  subst hnext
  rfl

end Outcomes

/-! ## Errors -/

/-- An error leaves the log as it was, and a valid event that fits can still be
appended. -/
def AppendAtomic (s : TpmLogMgr) (ev : TcgPcrEvent2) : Prop :=
  ∀ s' rc, s.addEvent ev = (s', some rc) →
    Kept s s' ∧
      (s.newEventPtr ≠ none → ∀ later : TcgPcrEvent2, later.Valid → s'.Fits later →
        (s'.addEvent later).2 = none)

/-- The event that passes the size check and is not marshalled. -/
def LosesPlace (s : TpmLogMgr) (ev : TcgPcrEvent2) : Prop :=
  s.newEventPtr ≠ none ∧ s.Fits ev ∧ HASH_COUNT < ev.digests.count.toNat

theorem LosesPlace.not_atomic {s : TpmLogMgr} {ev : TcgPcrEvent2} (h : s.LosesPlace ev) :
    ¬ s.AppendAtomic ev := by
  obtain ⟨hptr, hfits, hcount⟩ := h
  intro hatomic
  obtain ⟨p, hp⟩ := Option.ne_none_iff_exists'.mp hptr
  have hkept := (hatomic _ _ (addEvent_lost hp hfits hcount)).1
  exact hptr hkept.newEventPtr.symm

/-- An error leaves the log as it was exactly when the event does not pass the
size check with more digests than the marshaller takes. -/
theorem atomic_iff (s : TpmLogMgr) (ev : TcgPcrEvent2) : s.AppendAtomic ev ↔ ¬ s.LosesPlace ev := by
  constructor
  · intro hatomic hloses
    exact hloses.not_atomic hatomic
  · intro hgood s' rc hadd
    by_cases hrefused : s.newEventPtr = none ∨ ¬ s.Fits ev
    · rw [addEvent_refused hrefused] at hadd
      cases hadd
      refine ⟨⟨rfl, rfl, fun _ _ => rfl⟩, fun hptr later hvalid hfits => ?_⟩
      obtain ⟨p, hp⟩ := Option.ne_none_iff_exists'.mp hptr
      rw [addEvent_appended hp hfits hvalid.digests.1]
    · -- the event passed the size check, so it has few enough digests and is appended
      rw [not_or, not_not] at hrefused
      obtain ⟨hptr, hfits⟩ := hrefused
      obtain ⟨p, hp⟩ := Option.ne_none_iff_exists'.mp hptr
      have hcount : ev.digests.count.toNat ≤ HASH_COUNT :=
        Nat.not_lt.mp fun hcount => hgood ⟨hptr, hfits, hcount⟩
      rw [addEvent_appended hp hfits hcount] at hadd
      cases hadd

/-- An event of two digests and no message. -/
def twoDigests : TcgPcrEvent2 := ⟨0, 1, ⟨2, fun _ => ⟨0, fun _ => 0⟩⟩, ⟨0, fun _ => 0⟩⟩

/-- A log with its header only loses its place to an event with two digests,
and then refuses an event that fits. -/
theorem place_lost : ¬ ∀ (s : TpmLogMgr) (ev : TcgPcrEvent2), s.AppendAtomic ev := by
  intro h
  have hlogged := logged_initializeLog fun _ => 0
  have hsize : (initializeLog fun _ => 0).logSize = 69 := hlogged.size
  have hmax : (initializeLog fun _ => 0).logMaxSize = 7168 := (hlogged.manager rfl).1
  have hfits : (initializeLog fun _ => 0).Fits twoDigests := by
    refine ⟨?_, by decide⟩
    rw [hsize, hmax]
    decide
  have hloses : (initializeLog fun _ => 0).LosesPlace twoDigests :=
    ⟨by rw [hlogged.next]; exact Option.some_ne_none _, hfits, by decide⟩
  exact hloses.not_atomic (h _ _)

/-! ## Runs of appends -/

/-- The events of a list, added one after the other whatever is returned. -/
def appendAll (s : TpmLogMgr) (evs : List TcgPcrEvent2) : TpmLogMgr :=
  evs.foldl (fun s ev => (s.addEvent ev).1) s

/-- The events of a list that are added without an error. -/
def accepted : TpmLogMgr → List TcgPcrEvent2 → List TcgPcrEvent2
  | _, [] => []
  | s, ev :: evs =>
    match s.addEvent ev with
    | (s, none) => ev :: accepted s evs
    | (s, some _) => accepted s evs

theorem Logged.appendAll (evs : List TcgPcrEvent2) :
    ∀ {s : TpmLogMgr} {events : List TcgPcrEvent2}, Logged s events →
      (∀ ev ∈ evs, ev.Valid) → Logged (s.appendAll evs) (events ++ s.accepted evs) := by
  induction evs with
  | nil =>
    intro s events h _
    rw [accepted, List.append_nil]
    exact h
  | cons ev evs ih =>
    intro s events h hvalid
    have hev := hvalid ev List.mem_cons_self
    have hrest := fun e he => hvalid e (List.mem_cons_of_mem ev he)
    rw [TpmLogMgr.appendAll, List.foldl_cons, accepted]
    rcases hadd : s.addEvent ev with ⟨s1, _ | err⟩
    · have hmore := ih (h.addEvent hev hadd) hrest
      rw [List.append_assoc] at hmore
      exact hmore
    · -- An event that does not fit changes nothing, and one that fits is added.
      have hkept : s1 = s := by
        by_cases hfits : s.Fits ev
        · rw [addEvent_appended h.next hfits hev.digests.1] at hadd
          cases hadd
        · rw [addEvent_refused (.inr hfits)] at hadd
          cases hadd
          rfl
      rw [hkept]
      exact ih h hrest

/-- The log keeps the events that were added, in their order, whatever other
events are refused in between, and its size is theirs. -/
theorem walk_appendAll (mem0 : Mem) (evs : List TcgPcrEvent2) (hvalid : ∀ ev ∈ evs, ev.Valid) :
    (∃ ws, ((initializeLog mem0).appendAll evs).walk = some ws ∧
      List.Forall₂ TcgPcrEvent2.Same ws ((initializeLog mem0).accepted evs)) ∧
    ((initializeLog mem0).appendAll evs).getLogSize =
      (logBytes ((initializeLog mem0).accepted evs)).length := by
  have hlogged := (logged_initializeLog mem0).appendAll evs hvalid
  rw [List.nil_append] at hlogged
  exact ⟨hlogged.walk, hlogged.size⟩

/-- The first event is too long for the log, and the second one is not. -/
theorem walk_appendAll_separators : ∃ ws,
    ((initializeLog fun _ => 1).appendAll [separator 8000, separator 4]).walk = some ws ∧
      List.Forall₂ TcgPcrEvent2.Same ws
        ((initializeLog fun _ => 1).accepted [separator 8000, separator 4]) := by
  refine (walk_appendAll (fun _ => 1) [separator 8000, separator 4] fun ev hev => ?_).1
  simp only [List.mem_cons, List.not_mem_nil, or_false] at hev
  rcases hev with rfl | rfl
  · exact separator_valid (by decide)
  · exact separator_valid (by decide)

end TpmLogMgr

end Hostboot.Trusted
