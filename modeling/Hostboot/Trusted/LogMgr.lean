import Hostboot.Lib.Run
import Hostboot.Trusted.Events
import Mathlib.Algebra.GroupWithZero.Nat

/-!
# The log of the trusted boot events

`TpmLogMgr` keeps a buffer, the size of the log in it and a pointer to the place
of the next event.  Addresses count from the start of the buffer.  The first
buffer is in the manager, and what follows it is the end of the manager, whose
first bytes stay zero.  The log can be moved to a buffer of any size in memory, and
what follows that is whatever memory there is.
-/

namespace Hostboot.Trusted

open Lib List

def TPMLOG_BUFFER_SIZE : Nat := 7168

structure TpmLogMgr where
  logSize : Nat
  logMaxSize : Nat
  newEventPtr : Option Nat
  /-- Whether the log is at `eventLogInMem`, and no more in the manager. -/
  eventLogInMem : Bool
  mem : Mem

/-- The reason codes of `TpmLogMgr_addEvent`. -/
inductive Reasoncode
  | RC_TPMLOGMGR_ADDEVENT_FAIL | RC_TPMLOGMGR_ADDEVENTMARSH_FAIL
  deriving DecidableEq, Repr

namespace TpmLogMgr

/-! ## The functions of the source -/

/-- `TCG_EfiSpecIdEventStruct` with the vendor information, as it is built for
the header. -/
def specIdEvent : List UInt8 :=
  -- "Spec ID Event03", "IBM"
  [83, 112, 101, 99, 32, 73, 68, 32, 69, 118, 101, 110, 116, 48, 51, 0]
    ++ [1, 0, 0, 0] ++ [0, 2, 2, 1] ++ [1, 0, 0, 0] ++ [0x0B, 0, 32, 0] ++ [4] ++ [73, 66, 77, 0]

/-- The event of the header. -/
def header : TcgPcrEvent where
  pcrIndex := 0
  eventType := 3
  digest := fun _ => 0
  eventSize := 37
  event := fun i => specIdEvent.getD i 0

/-- The bytes of the manager behind its buffer that stay zero: four of padding, and
all but the last of the word of `logMutex`, which is 0, 1 or 2. -/
def PADDING : Nat := 11

/-- The memory with `n` zeros at its start. -/
def clear (mem : Mem) (n : Nat) : Mem := fun x => if x < n then 0 else mem x

/-- `TpmLogMgr_initialize`, over a memory with arbitrary content. -/
def initializeLog (mem : Mem) : TpmLogMgr :=
  let (mem, newEventPtr) := header.logMarshal (clear mem (TPMLOG_BUFFER_SIZE + PADDING)) 0
  ⟨header.marshalSize, TPMLOG_BUFFER_SIZE, some newEventPtr, false, mem⟩

/-- `TpmLogMgr_addEvent`. -/
def addEvent (s : TpmLogMgr) (logEvent : TcgPcrEvent2) : TpmLogMgr × Option Reasoncode :=
  let newLogSize := logEvent.marshalSize
  match s.newEventPtr with
  | none => (s, some .RC_TPMLOGMGR_ADDEVENT_FAIL)
  | some newEventPtr =>
    if s.logSize + newLogSize > s.logMaxSize ∨ newLogSize > MAX_TPM_LOG_MSG then
      (s, some .RC_TPMLOGMGR_ADDEVENT_FAIL)
    else
      match logEvent.logMarshal s.mem newEventPtr with
      | (mem, none) =>
        ({ s with mem := mem, newEventPtr := none }, some .RC_TPMLOGMGR_ADDEVENTMARSH_FAIL)
      | (mem, some newEventPtr) =>
        ({ s with mem := mem, newEventPtr := some newEventPtr, logSize := s.logSize + newLogSize },
          none)

/-- `TpmLogMgr_relocateTpmLog`, up to its assertion.  Only for a log that comes from
the manager is the new place cleared. -/
def relocateTpmLog (s : TpmLogMgr) (newLog : Mem) (maxSize : Nat) : Option TpmLogMgr :=
  if s.logSize < maxSize then
    let newLog := if s.eventLogInMem then newLog else clear newLog maxSize
    some { s with
      logMaxSize := maxSize % 2 ^ 32
      newEventPtr := some s.logSize
      eventLogInMem := true
      mem := newLog.write 0 (s.mem.read 0 s.logSize) }
  else none

/-- `TpmLogMgr_getLogSize`. -/
def getLogSize (s : TpmLogMgr) : Nat := s.logSize

/-- The loop of `TpmLogMgr_calcLogSize` over the events behind the header. -/
def calcLoop (s : TpmLogMgr) (event2 : TcgPcrEvent2) (prevLogHandle : Nat) : Option Nat :=
  match _hnext : event2.logUnmarshal s.mem prevLogHandle SIZEOF_TCG_PCR_EVENT2 with
  | none => some prevLogHandle
  | some (event2, nextLogHandle) =>
    if nextLogHandle > s.logMaxSize then none else calcLoop s event2 nextLogHandle
termination_by s.logMaxSize + 1 - prevLogHandle
decreasing_by
  obtain ⟨_, _, hnext⟩ := TcgPcrEvent2.holds_of_unmarshal _hnext
  have hlen := event2.length_bytes
  omega

/-- `TpmLogMgr_calcLogSize`. -/
def calcLogSize (s : TpmLogMgr) : Nat :=
  match TcgPcrEvent.zero.logUnmarshal s.mem 0 SIZEOF_TCG_PCR_EVENT with
  | none => 0
  | some (event, nextLogHandle) =>
    if event.eventType.toNat ≠ EV_NO_ACTION ∨ event.eventSize = 0 then 0
    else if nextLogHandle > s.logMaxSize then 0
    else (s.calcLoop .zero nextLogHandle).getD 0

/-- `TpmLogMgr_getFirstEvent`. -/
def getFirstEvent (s : TpmLogMgr) : Option Nat :=
  match TcgPcrEvent.zero.logUnmarshal s.mem 0 SIZEOF_TCG_PCR_EVENT, s.newEventPtr with
  | some (_, firstEvent), some newEventPtr =>
    if firstEvent < newEventPtr then some firstEvent else none
  | _, _ => none

/-- `TpmLogMgr_getNextEvent`: the next handle, the event and the error flag. -/
def getNextEvent (s : TpmLogMgr) (handle : Option Nat) : Option Nat × TcgPcrEvent2 × Bool :=
  match handle with
  | none => (none, .zero, true)
  | some handle =>
    match TcgPcrEvent2.zero.logUnmarshal s.mem handle SIZEOF_TCG_PCR_EVENT2 with
    | none => (none, .zero, true)
    | some (eventLog, result) =>
      match s.newEventPtr with
      | none => (none, eventLog, false)
      | some newEventPtr =>
        (if result ≥ newEventPtr then none else some result, eventLog, false)

theorem getNextEvent_lt {s : TpmLogMgr} {h h' : Nat} {ev : TcgPcrEvent2} {err : Bool}
    (hnext : s.getNextEvent (some h) = (some h', ev, err)) :
    h < h' ∧ h' < s.newEventPtr.getD 0 := by
  unfold getNextEvent at hnext
  dsimp only at hnext
  cases hread : TcgPcrEvent2.zero.logUnmarshal s.mem h SIZEOF_TCG_PCR_EVENT2 with
  | none =>
    rw [hread] at hnext
    cases hnext
  | some res =>
    obtain ⟨ev', p⟩ := res
    rw [hread] at hnext
    obtain ⟨_, _, hp⟩ := TcgPcrEvent2.holds_of_unmarshal hread
    have hlen := ev'.length_bytes
    cases hptr : s.newEventPtr with
    | none =>
      rw [hptr] at hnext
      cases hnext
    | some q =>
      rw [hptr] at hnext
      dsimp only at hnext
      by_cases hle : p ≥ q
      · rw [if_pos hle] at hnext
        cases hnext
      · rw [if_neg hle] at hnext
        cases hnext
        rw [Option.getD_some]
        omega

/-- The walk of the callers over a log, from a handle on: events until the
handle is null, and none of them in error. -/
def walkFrom (s : TpmLogMgr) (handle : Nat) : Option (List TcgPcrEvent2) :=
  match _hnext : s.getNextEvent (some handle) with
  | (_, _, true) => none
  | (none, eventLog, false) => some [eventLog]
  | (some next, eventLog, false) => (walkFrom s next).map (eventLog :: ·)
termination_by s.newEventPtr.getD 0 - handle
decreasing_by
  have hlt := getNextEvent_lt _hnext
  omega

/-- The walk from the first event. -/
def walk (s : TpmLogMgr) : Option (List TcgPcrEvent2) :=
  match s.getFirstEvent with
  | none => some []
  | some handle => s.walkFrom handle

/-! ## The invariant -/

/-- The marshalled form of a log. -/
def logBytes (events : List TcgPcrEvent2) : List UInt8 :=
  header.bytes ++ events.flatMap TcgPcrEvent2.bytes

/-- A log of `events`. -/
structure Logged (s : TpmLogMgr) (events : List TcgPcrEvent2) : Prop where
  size : s.logSize = (logBytes events).length
  size_le : s.logSize ≤ s.logMaxSize
  next : s.newEventPtr = some s.logSize
  holds : s.mem.Holds 0 (logBytes events)
  manager : s.eventLogInMem = false → s.logMaxSize = TPMLOG_BUFFER_SIZE ∧
    ∀ x, s.logSize ≤ x → x < TPMLOG_BUFFER_SIZE + PADDING → s.mem x = 0
  valid : ∀ ev ∈ events, ev.Valid

theorem header_valid : header.Valid := ⟨by decide, by decide, by decide, by decide⟩

theorem logBytes_snoc (events : List TcgPcrEvent2) (ev : TcgPcrEvent2) :
    logBytes (events ++ [ev]) = logBytes events ++ ev.bytes := by
  rw [logBytes, flatMap_append, flatMap_singleton, ← append_assoc, logBytes]

theorem logged_initializeLog (mem0 : Mem) : Logged (initializeLog mem0) [] := by
  have hlen : header.bytes.length = 69 := TcgPcrEvent.length_bytes header
  have hbytes : logBytes [] = header.bytes := append_nil _
  have hmarshal : ∀ m : Mem, header.logMarshal m 0 = (m.write 0 header.bytes, 69) := by
    intro m
    rw [TcgPcrEvent.logMarshal_eq m 0 (by decide), hlen]
  unfold initializeLog
  rw [hmarshal]
  refine ⟨?_, (by decide : header.marshalSize ≤ TPMLOG_BUFFER_SIZE), rfl, ?_,
    fun _ => ⟨rfl, fun x hlo hhi => ?_⟩, fun ev hev => absurd hev not_mem_nil⟩
  · rw [hbytes, hlen]
    rfl
  · rw [hbytes]
    exact Mem.holds_write _ 0 header.bytes
  · have hsame := Mem.write_sameOutside (clear mem0 (TPMLOG_BUFFER_SIZE + PADDING)) 0 header.bytes
    have hlo' : 69 ≤ x := hlo
    exact (hsame x (.inr (by omega))).trans (if_pos hhi)

theorem addEvent_ok {s s' : TpmLogMgr} {ev : TcgPcrEvent2} (hvalid : ev.Valid)
    (hadd : s.addEvent ev = (s', none)) :
    ∃ p, s.newEventPtr = some p ∧ s.logSize + ev.bytes.length ≤ s.logMaxSize ∧
      s' = { s with
        mem := s.mem.write p ev.bytes
        newEventPtr := some (p + ev.bytes.length)
        logSize := s.logSize + ev.bytes.length } := by
  unfold TpmLogMgr.addEvent at hadd
  rw [TcgPcrEvent2.marshalSize_eq hvalid.digests.1] at hadd
  dsimp only at hadd
  cases hptr : s.newEventPtr with
  | none =>
    rw [hptr] at hadd
    cases hadd
  | some p =>
    rw [hptr] at hadd
    dsimp only at hadd
    by_cases hfull : s.logSize + ev.bytes.length > s.logMaxSize ∨ ev.bytes.length > MAX_TPM_LOG_MSG
    · rw [if_pos hfull] at hadd
      cases hadd
    rw [if_neg hfull, TcgPcrEvent2.logMarshal_eq _ _ hvalid] at hadd
    cases hadd
    exact ⟨p, rfl, by omega, rfl⟩

theorem Logged.addEvent {s s' : TpmLogMgr} {events : List TcgPcrEvent2} {ev : TcgPcrEvent2}
    (h : Logged s events) (hvalid : ev.Valid) (hadd : s.addEvent ev = (s', none)) :
    Logged s' (events ++ [ev]) := by
  obtain ⟨p, hptr, hroom, rfl⟩ := addEvent_ok hvalid hadd
  have hp : p = s.logSize := Option.some.inj (hptr.symm.trans h.next)
  subst hp
  have hsame := Mem.write_sameOutside s.mem s.logSize ev.bytes
  have hsize := h.size
  refine ⟨?_, hroom, rfl, ?_, fun hmem => ?_, fun e he => ?_⟩
  · rw [logBytes_snoc, length_append, ← hsize]
  · rw [logBytes_snoc]
    refine Mem.holds_append.mpr ⟨h.holds.of_sameOutside hsame (by omega), ?_⟩
    rw [← hsize, Nat.zero_add]
    exact Mem.holds_write s.mem s.logSize ev.bytes
  · obtain ⟨hmax, hzero⟩ := h.manager hmem
    refine ⟨hmax, fun x hlo hhi => ?_⟩
    have hlo' : s.logSize + ev.bytes.length ≤ x := hlo
    exact (hsame x (.inr hlo')).trans (hzero x (by omega) hhi)
  · rcases mem_append.mp he with he | he
    · exact h.valid e he
    · rw [mem_singleton.mp he]
      exact hvalid

theorem Logged.relocateTpmLog {s s' : TpmLogMgr} {events : List TcgPcrEvent2} {newLog : Mem}
    {maxSize : Nat} (h : Logged s events) (hmax : maxSize < 2 ^ 32)
    (hmove : s.relocateTpmLog newLog maxSize = some s') : Logged s' events := by
  unfold TpmLogMgr.relocateTpmLog at hmove
  split_ifs at hmove with hroom hmem
  all_goals
    cases hmove
    have hread : s.mem.read 0 s.logSize = logBytes events := by
      rw [h.size]
      exact h.holds
    refine ⟨h.size, ?_, rfl, ?_, fun hno => absurd hno (by simp), h.valid⟩
    · rw [Nat.mod_eq_of_lt hmax]
      exact Nat.le_of_lt hroom
    · rw [hread]
      exact Mem.holds_write _ 0 (logBytes events)

/-! ## The steps -/

/-- The steps of a log. -/
inductive Op where
  | addEvent (logEvent : TcgPcrEvent2)
  | relocateTpmLog (newLog : Mem) (maxSize : Nat)

/-- A valid event that is added without an error, or a move to a buffer whose size
fits in 32 bits. -/
inductive Step (s : TpmLogMgr) : Op → TpmLogMgr → Prop
  | addEvent {ev : TcgPcrEvent2} {s' : TpmLogMgr} (hvalid : ev.Valid)
      (hadd : s.addEvent ev = (s', none)) : Step s (.addEvent ev) s'
  | relocateTpmLog {newLog : Mem} {maxSize : Nat} {s' : TpmLogMgr} (hmax : maxSize < 2 ^ 32)
      (hmove : s.relocateTpmLog newLog maxSize = some s') :
      Step s (.relocateTpmLog newLog maxSize) s'

/-- The events that the steps add. -/
def added (ops : List Op) : List TcgPcrEvent2 :=
  ops.filterMap fun
    | .addEvent ev => some ev
    | .relocateTpmLog _ _ => none

theorem Logged.step {ops : List Op} {op : Op} {s s' : TpmLogMgr} (h : Logged s (added ops))
    (hstep : Step s op s') : Logged s' (added (ops ++ [op])) := by
  rw [added, filterMap_append]
  cases hstep with
  | addEvent hvalid hadd => exact h.addEvent hvalid hadd
  | relocateTpmLog hmax hmove =>
    rw [filterMap_cons_none rfl, filterMap_nil, append_nil]
    exact h.relocateTpmLog hmax hmove

theorem logged_of_run {mem0 : Mem} {ops : List Op} {s : TpmLogMgr}
    (hrun : Run Step (initializeLog mem0) ops s) : Logged s (added ops) := by
  have hnil : Logged (initializeLog mem0) (added []) := logged_initializeLog mem0
  have hstep : ∀ ops s op s', Logged s (added ops) → Step s op s' →
      Logged s' (added (ops ++ [op])) := fun _ _ _ _ => Logged.step
  exact hrun.invariant_trace hnil hstep

/-! ## The walk -/

section Walk

variable {s : TpmLogMgr} {events : List TcgPcrEvent2}

theorem Logged.header (h : Logged s events) :
    ∃ r, TcgPcrEvent.zero.logUnmarshal s.mem 0 SIZEOF_TCG_PCR_EVENT
        = some (r, TpmLogMgr.header.bytes.length) ∧
      r.eventType.toNat = EV_NO_ACTION ∧ r.eventSize ≠ 0 := by
  obtain ⟨r, hr, htype, hsize⟩ := TcgPcrEvent.unmarshal_of_holds TcgPcrEvent.zero header_valid
    (Mem.holds_append.mp h.holds).1 (Nat.le_refl _)
  rw [Nat.zero_add] at hr
  refine ⟨r, hr, ?_, ?_⟩
  · rw [htype]
    rfl
  · rw [hsize]
    decide

theorem getNextEvent_of_holds {ev : TcgPcrEvent2} {p q : Nat} (hvalid : ev.Valid)
    (hholds : s.mem.Holds p ev.bytes) (hptr : s.newEventPtr = some q) :
    ∃ r, s.getNextEvent (some p)
        = (if p + ev.bytes.length ≥ q then none else some (p + ev.bytes.length), r, false) ∧
      r.Same ev := by
  obtain ⟨r, hr, hsame⟩ :=
    TcgPcrEvent2.unmarshal_of_holds TcgPcrEvent2.zero hvalid hholds (Nat.le_refl _)
  unfold getNextEvent
  dsimp only
  rw [hr, hptr]
  exact ⟨r, rfl, hsame⟩

/-- A walk from an event whose bytes, and those of the events behind it, reach
up to the place of the next event. -/
theorem walkFrom_of_holds (evs : List TcgPcrEvent2) : ∀ (ev : TcgPcrEvent2) (p : Nat),
    (∀ e ∈ ev :: evs, e.Valid) → s.mem.Holds p ((ev :: evs).flatMap TcgPcrEvent2.bytes) →
    s.newEventPtr = some (p + ((ev :: evs).flatMap TcgPcrEvent2.bytes).length) →
    ∃ ws, s.walkFrom p = some ws ∧ List.Forall₂ TcgPcrEvent2.Same ws (ev :: evs) := by
  induction evs with
  | nil =>
    intro ev p hvalid hholds hptr
    rw [flatMap_singleton] at hholds hptr
    obtain ⟨r, hr, hsame⟩ := getNextEvent_of_holds (hvalid ev mem_cons_self) hholds hptr
    rw [if_pos (Nat.le_refl _)] at hr
    refine ⟨[r], ?_, List.Forall₂.cons hsame .nil⟩
    rw [walkFrom]
    split
    · rename_i heq
      rw [hr] at heq
      cases heq
    · rename_i heq
      rw [hr] at heq
      cases heq
      rfl
    · rename_i heq
      rw [hr] at heq
      cases heq
  | cons ev' evs ih =>
    intro ev p hvalid hholds hptr
    rw [flatMap_cons] at hholds hptr
    obtain ⟨hfirst, hrest⟩ := Mem.holds_append.mp hholds
    obtain ⟨r, hr, hsame⟩ := getNextEvent_of_holds (hvalid ev mem_cons_self) hfirst hptr
    have hlen := ev'.length_bytes
    have hmore : ¬ p + ev.bytes.length
        ≥ p + (ev.bytes ++ (ev' :: evs).flatMap TcgPcrEvent2.bytes).length := by
      rw [flatMap_cons, length_append, length_append]
      omega
    rw [if_neg hmore] at hr
    rw [length_append, ← Nat.add_assoc] at hptr
    obtain ⟨ws, hws, hsames⟩ := ih ev' (p + ev.bytes.length)
      (fun e he => hvalid e (mem_cons_of_mem _ he)) hrest hptr
    refine ⟨r :: ws, ?_, List.Forall₂.cons hsame hsames⟩
    rw [walkFrom]
    split
    · rename_i heq
      rw [hr] at heq
      cases heq
    · rename_i heq
      rw [hr] at heq
      cases heq
    · rename_i heq
      rw [hr] at heq
      cases heq
      rw [hws]
      rfl

theorem Logged.walk (h : Logged s events) :
    ∃ ws, s.walk = some ws ∧ List.Forall₂ TcgPcrEvent2.Same ws events := by
  obtain ⟨r, hr, _, _⟩ := h.header
  have hsize := h.size
  rw [logBytes, length_append] at hsize
  unfold TpmLogMgr.walk getFirstEvent
  rw [hr, h.next]
  dsimp only
  cases events with
  | nil =>
    have hnone : ¬ TpmLogMgr.header.bytes.length < s.logSize := by
      rw [hsize]
      exact Nat.lt_irrefl _
    rw [if_neg hnone]
    exact ⟨[], rfl, .nil⟩
  | cons ev evs =>
    have hlen := ev.length_bytes
    have hsome : TpmLogMgr.header.bytes.length < s.logSize := by
      rw [hsize, flatMap_cons, length_append]
      omega
    rw [if_pos hsome]
    refine walkFrom_of_holds evs ev _ h.valid ?_ (h.next.trans (congrArg some hsize))
    have hholds := (Mem.holds_append.mp h.holds).2
    rw [Nat.zero_add] at hholds
    exact hholds

/-! ## The size -/

/-- A valid event that stands behind the log, in its marshalled form. -/
def EventBehind (s : TpmLogMgr) : Prop :=
  ∃ ev : TcgPcrEvent2, ev.Valid ∧ s.mem.Holds s.logSize ev.bytes

theorem calcLoop_of_holds (evs : List TcgPcrEvent2) : ∀ (event2 : TcgPcrEvent2) (p : Nat),
    (∀ e ∈ evs, e.Valid) → s.mem.Holds p (evs.flatMap TcgPcrEvent2.bytes) →
    p + (evs.flatMap TcgPcrEvent2.bytes).length ≤ s.logMaxSize →
    ∃ event2', s.calcLoop event2 p
      = s.calcLoop event2' (p + (evs.flatMap TcgPcrEvent2.bytes).length) := by
  induction evs with
  | nil =>
    intro event2 p _ _ _
    exact ⟨event2, rfl⟩
  | cons ev evs ih =>
    intro event2 p hvalid hholds hle
    rw [flatMap_cons] at hholds hle ⊢
    rw [length_append] at hle ⊢
    obtain ⟨hfirst, hrest⟩ := Mem.holds_append.mp hholds
    obtain ⟨r, hr, _⟩ := TcgPcrEvent2.unmarshal_of_holds event2
      (hvalid ev mem_cons_self) hfirst (Nat.le_refl _)
    obtain ⟨event2', hloop⟩ := ih r (p + ev.bytes.length)
      (fun e he => hvalid e (mem_cons_of_mem _ he)) hrest (by omega)
    refine ⟨event2', ?_⟩
    rw [← Nat.add_assoc, ← hloop, calcLoop]
    split
    · rename_i heq
      rw [hr] at heq
      cases heq
    · rename_i heq
      rw [hr] at heq
      cases heq
      rw [if_neg (by omega)]

/-- An event seems to follow only a log that has been moved to memory: the type of an
event is not zero. -/
theorem Logged.inMem_of_eventBehind (h : Logged s events) (hbehind : EventBehind s) :
    s.eventLogInMem = true := by
  by_contra hmem
  obtain ⟨hmax, hfree⟩ := h.manager (Bool.eq_false_iff.mpr hmem)
  have hle := h.size_le
  obtain ⟨ev, hvalid, hholds⟩ := hbehind
  have htype := (Mem.holds_append.mp (Mem.holds_append.mp hholds).2).1
  rw [Mem.length_bytesLE] at htype
  have hread := Mem.getLE_of_holds htype ev.eventType.toNat_lt
  have hzero : s.mem.getLE (s.logSize + 4) 4 = 0 :=
    Mem.getLE_eq_zero fun i hi => hfree _ (by omega) (by unfold PADDING; omega)
  exact hvalid.eventType_pos (hread.symm.trans hzero)

theorem calcLoop_le (s : TpmLogMgr) (event2 : TcgPcrEvent2) (p : Nat) :
    ∀ {q : Nat}, s.calcLoop event2 p = some q → p ≤ q := by
  induction event2, p using calcLoop.induct s with
  | case1 event2 p hnone =>
    intro q hq
    rw [calcLoop] at hq
    split at hq
    · exact Nat.le_of_eq (Option.some.inj hq)
    · rename_i heq
      rw [hnone] at heq
      cases heq
  | case2 event2 p ev next hsome hover =>
    intro q hq
    rw [calcLoop] at hq
    split at hq
    · exact Nat.le_of_eq (Option.some.inj hq)
    · rename_i heq
      rw [hsome] at heq
      cases heq
      rw [if_pos hover] at hq
      cases hq
  | case3 event2 p ev next hsome hover ih =>
    intro q hq
    rw [calcLoop] at hq
    split at hq
    · exact Nat.le_of_eq (Option.some.inj hq)
    · rename_i heq
      rw [hsome] at heq
      cases heq
      rw [if_neg hover] at hq
      obtain ⟨_, _, rfl⟩ := TcgPcrEvent2.holds_of_unmarshal hsome
      exact Nat.le_trans (Nat.le_add_right _ _) (ih hq)

/-- At the end of the log the loop stops, unless an event seems to follow. -/
theorem Logged.calcLoop_end (event2 : TcgPcrEvent2) :
    s.calcLoop event2 s.logSize = some s.logSize ↔ ¬ EventBehind s := by
  rw [calcLoop]
  split
  · rename_i hnone
    refine iff_of_true rfl fun ⟨ev, hvalid, hholds⟩ => ?_
    obtain ⟨r, hr, _⟩ := TcgPcrEvent2.unmarshal_of_holds event2 hvalid hholds (Nat.le_refl _)
    rw [hr] at hnone
    cases hnone
  · rename_i ev next hsome
    obtain ⟨hvalid, hholds, rfl⟩ := TcgPcrEvent2.holds_of_unmarshal hsome
    refine iff_of_false (fun hstop => ?_) (not_not.mpr ⟨ev, hvalid, hholds⟩)
    have hlen := ev.length_bytes
    split_ifs at hstop
    have hle := calcLoop_le s ev _ hstop
    omega

/-- The size that is calculated is that of the log, unless an event seems to
follow it. -/
theorem Logged.calcLogSize (h : Logged s events) :
    s.calcLogSize = s.logSize ↔ ¬ EventBehind s := by
  obtain ⟨r, hr, htype, hsize⟩ := h.header
  have hlogSize := h.size
  have hle := h.size_le
  rw [logBytes, length_append] at hlogSize
  have hholds := (Mem.holds_append.mp h.holds).2
  rw [Nat.zero_add] at hholds
  obtain ⟨event2, hloop⟩ := calcLoop_of_holds events .zero _ h.valid hholds (by omega)
  rw [← hlogSize] at hloop
  have hheader : ¬ (r.eventType.toNat ≠ EV_NO_ACTION ∨ r.eventSize = 0) :=
    fun hbad => hbad.elim (fun hne => hne htype) hsize
  have hcalc : s.calcLogSize = (s.calcLoop event2 s.logSize).getD 0 := by
    unfold TpmLogMgr.calcLogSize
    rw [hr]
    dsimp only
    rw [if_neg hheader, if_neg (by omega), hloop]
  have hlen : TpmLogMgr.header.bytes.length = 69 := TcgPcrEvent.length_bytes TpmLogMgr.header
  rw [hcalc, ← Logged.calcLoop_end event2]
  cases hend : s.calcLoop event2 s.logSize with
  | none =>
    rw [Option.getD_none]
    exact iff_of_false (by omega) (by simp)
  | some q => rw [Option.getD_some, Option.some.injEq]

end Walk

/-- Events added without an error are walked over in their order.  The size of
the log is calculated right exactly when no event seems to stand behind it, and that
is always so while the log is in the manager. -/
theorem log_round_trip {mem0 : Mem} {ops : List Op} {s : TpmLogMgr}
    (hrun : Run Step (initializeLog mem0) ops s) :
    (∃ ws, s.walk = some ws ∧ List.Forall₂ TcgPcrEvent2.Same ws (added ops)) ∧
      (s.calcLogSize = s.getLogSize ↔ ¬ EventBehind s) ∧
      (EventBehind s → s.eventLogInMem = true) := by
  have hlogged := logged_of_run hrun
  exact ⟨hlogged.walk, hlogged.calcLogSize, hlogged.inMem_of_eventBehind⟩

/-! ## Logs of zeros -/

/-- An event with a message of `n` zeros. -/
def separator (n : UInt32) : TcgPcrEvent2 := ⟨0, 1, ⟨0, fun _ => ⟨0, fun _ => 0⟩⟩, ⟨n, fun _ => 0⟩⟩

theorem separator_valid {n : UInt32} (hn : n.toNat ≤ MAX_TPM_LOG_MSG) : (separator n).Valid :=
  ⟨Nat.zero_le _, (by decide : (1 : UInt32).toNat ≠ 0), (by decide : (1 : UInt32).toNat < EV_INVALID),
    ⟨Nat.zero_le _, fun _ hidx => absurd hidx (Nat.not_lt_zero _)⟩, hn⟩

theorem length_separator (n : UInt32) : (separator n).bytes.length = 16 + n.toNat := by
  have hdigests : (separator n).digests.bytes.length = 4 := rfl
  rw [TcgPcrEvent2.length_bytes, hdigests, TpmEventField.length_bytes]
  show 8 + 4 + (4 + n.toNat) = 16 + n.toNat
  omega

/-- An event that fits is added, and the memory behind it is left alone. -/
theorem addEvent_separator {s : TpmLogMgr} {events : List TcgPcrEvent2} {n : UInt32}
    (h : Logged s events) (hmsg : 16 + n.toNat ≤ MAX_TPM_LOG_MSG)
    (hroom : s.logSize + (16 + n.toNat) ≤ s.logMaxSize) :
    ∃ s', Step s (.addEvent (separator n)) s' ∧ s'.logSize = s.logSize + (16 + n.toNat) ∧
      s'.logMaxSize = s.logMaxSize ∧ ∀ x, s'.logSize ≤ x → s'.mem x = s.mem x := by
  have hvalid := separator_valid (n := n) (by omega)
  have hlen := length_separator n
  have hfull : ¬ (s.logSize + (separator n).bytes.length > s.logMaxSize ∨
      (separator n).bytes.length > MAX_TPM_LOG_MSG) := by omega
  have hadd : s.addEvent (separator n) = ({ s with
      mem := s.mem.write s.logSize (separator n).bytes
      newEventPtr := some (s.logSize + (separator n).bytes.length)
      logSize := s.logSize + (separator n).bytes.length }, none) := by
    rw [TpmLogMgr.addEvent, h.next, TcgPcrEvent2.marshalSize_eq hvalid.digests.1]
    dsimp only
    rw [if_neg hfull, TcgPcrEvent2.logMarshal_eq _ _ hvalid]
  have hsame := Mem.write_sameOutside s.mem s.logSize (separator n).bytes
  exact ⟨_, .addEvent hvalid hadd, congrArg (s.logSize + ·) hlen, rfl,
    fun x hx => hsame x (.inr hx)⟩

theorem addEvents_separator (ns : List UInt32) : ∀ {s : TpmLogMgr} {events : List TcgPcrEvent2},
    Logged s events → (∀ n ∈ ns, 16 + n.toNat ≤ MAX_TPM_LOG_MSG) →
    s.logSize + (ns.map (16 + ·.toNat)).sum ≤ s.logMaxSize →
    ∃ s', Run Step s (ns.map (.addEvent ∘ separator)) s' ∧
      s'.logSize = s.logSize + (ns.map (16 + ·.toNat)).sum ∧
      ∀ x, s'.logSize ≤ x → s'.mem x = s.mem x := by
  induction ns with
  | nil =>
    intro s events _ _ _
    exact ⟨s, .nil, rfl, fun _ _ => rfl⟩
  | cons n ns ih =>
    intro s events h hmsg hroom
    rw [map_cons, sum_cons] at hroom
    rw [map_cons, map_cons, sum_cons]
    obtain ⟨s1, hstep, hsize, hmax, hsame⟩ :=
      addEvent_separator h (hmsg n mem_cons_self) (by omega)
    have h1 : Logged s1 (events ++ [separator n]) := by
      cases hstep with
      | addEvent hvalid hadd => exact h.addEvent hvalid hadd
    obtain ⟨s', hrun, hsize', hsame'⟩ :=
      ih h1 (fun m hm => hmsg m (mem_cons_of_mem n hm)) (by omega)
    refine ⟨s', .cons hstep hrun, by omega, fun x hx => ?_⟩
    exact (hsame' x hx).trans (hsame x (by omega))

theorem relocated_separator (newLog : Mem) (maxSize : Nat) (ns : List UInt32)
    (hmsg : ∀ n ∈ ns, 16 + n.toNat ≤ MAX_TPM_LOG_MSG) (hsome : 69 < maxSize)
    (hmax : maxSize < 2 ^ 32) (hroom : 69 + (ns.map (16 + ·.toNat)).sum ≤ maxSize) :
    ∃ s, Run Step (initializeLog fun _ => 0)
        (.relocateTpmLog newLog maxSize :: ns.map (.addEvent ∘ separator)) s ∧
      s.logSize = 69 + (ns.map (16 + ·.toNat)).sum ∧
      ∀ x, s.logSize ≤ x → s.mem x = clear newLog maxSize x := by
  have hlogged := logged_initializeLog fun _ => 0
  have hread := Mem.length_read (initializeLog fun _ => 0).mem 0 69
  have hmove : (initializeLog fun _ => 0).relocateTpmLog newLog maxSize = some
      { initializeLog fun _ => 0 with
        logMaxSize := maxSize % 2 ^ 32
        newEventPtr := some 69
        eventLogInMem := true
        mem := (clear newLog maxSize).write 0 ((initializeLog fun _ => 0).mem.read 0 69) } :=
    if_pos hsome
  have h1 := hlogged.relocateTpmLog hmax hmove
  obtain ⟨s, hrun, hsize, hsame⟩ :=
    addEvents_separator ns h1 hmsg (by rw [Nat.mod_eq_of_lt hmax]; exact hroom)
  have hsize' : s.logSize = 69 + (ns.map (16 + ·.toNat)).sum := hsize
  refine ⟨s, .cons (.relocateTpmLog hmax hmove) hrun, hsize', fun x hx => ?_⟩
  exact (hsame x hx).trans (Mem.write_sameOutside _ _ _ x (.inr (by rw [hread]; omega)))

/-- A log in memory with room to spare. -/
theorem log_round_trip_separator :
    ∃ s ws, Run Step (initializeLog fun _ => 0)
        [.relocateTpmLog (fun _ => 1) 4096, .addEvent (separator 4), .addEvent (separator 0)] s ∧
      s.walk = some ws ∧ List.Forall₂ TcgPcrEvent2.Same ws [separator 4, separator 0] ∧
      s.calcLogSize = s.getLogSize := by
  obtain ⟨s, hrun, hsize, hmem⟩ := relocated_separator (fun _ => 1) 4096 [4, 0]
    (by simp [MAX_TPM_LOG_MSG]) (by decide) (by decide) (by decide)
  obtain ⟨⟨ws, hwalk, hsame⟩, hcalc, -⟩ := log_round_trip hrun
  refine ⟨s, ws, hrun, hwalk, hsame, hcalc.mpr fun ⟨ev, hvalid, hholds⟩ => ?_⟩
  have hsize' : s.logSize = 105 := hsize
  have htype := (Mem.holds_append.mp (Mem.holds_append.mp hholds).2).1
  rw [Mem.length_bytesLE] at htype
  have hread := Mem.getLE_of_holds htype ev.eventType.toNat_lt
  have hzero : s.mem.getLE (s.logSize + 4) 4 = 0 := Mem.getLE_eq_zero fun i hi => by
    rw [hmem _ (by omega), clear, if_pos (by omega)]
  exact hvalid.eventType_pos (hread.symm.trans hzero)

/-- What the header of a log looks like, read as an event of the list. -/
def noAction : TcgPcrEvent2 := { separator 0 with eventType := 3 }

/-- A log in memory that fills its 64 KiB, with the log of the next TPM behind it. -/
theorem log_size_lost : ¬ ∀ (mem0 : Mem) (ops : List Op) (s : TpmLogMgr),
    Run Step (initializeLog mem0) ops s →
    (∃ ws, s.walk = some ws ∧ List.Forall₂ TcgPcrEvent2.Same ws (added ops)) ∧
      s.calcLogSize = s.getLogSize := by
  intro h
  let nextLog : Mem := fun x => (initializeLog fun _ => 0).mem (x - 65536)
  obtain ⟨s, hrun, hsize, hmem⟩ := relocated_separator nextLog 65536
    (List.replicate 7 8176 ++ [8107]) (by simp [MAX_TPM_LOG_MSG]) (by decide) (by decide) (by decide)
  have hfull : s.logSize = 65536 := hsize
  have hzeros := separator_valid (n := 0) (by decide)
  refine (logged_of_run hrun).calcLogSize.mp (h _ _ s hrun).2
    ⟨noAction, ⟨hzeros.pcrIndex, by decide, by decide, hzeros.digests, hzeros.event⟩, ?_⟩
  have hheader : (initializeLog fun _ => 0).mem.Holds 0 (noAction.bytes ++ header.bytes.drop 16) := by
    have hholds := (logged_initializeLog fun _ => 0).holds
    have hbytes : logBytes [] = noAction.bytes ++ header.bytes.drop 16 := by decide
    rwa [hbytes] at hholds
  refine Eq.trans ?_ (Mem.holds_append.mp hheader).1
  refine map_congr_left fun i _ => ?_
  rw [hfull, hmem _ (by omega), clear, if_neg (by omega)]
  show (initializeLog fun _ => 0).mem (65536 + i - 65536) = _
  rw [Nat.add_sub_cancel_left, Nat.zero_add]

end TpmLogMgr

end Hostboot.Trusted
