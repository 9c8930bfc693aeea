import Hostboot.Msg.Timeout
import Hostboot.TimeMgr.Core
import Hostboot.Util.Machine

/-!
# The time that `msg_wait_timeout` leaves

A call of `msg_wait_timeout` reads the clock before it creates its helper task and
again after its loop, and writes the milliseconds that are left over the ones it was
given.  This module puts the clock beside the system of `Hostboot.Msg.Timeout`: the
time base advances between any two steps, and the two readings stand where the source
has them.

The milliseconds between the readings are subtracted without a test.  A call that takes
longer than it was given, as every call does that runs into its timeout and is a
millisecond late, leaves almost `2 ^ 64`.
-/

namespace Hostboot.Msg.Timeout

open Hostboot.Lib Hostboot.TimeMgr

/-! ## The clock -/

def NS_PER_SEC : Nat := 1000000000

def NS_PER_MSEC : Nat := 1000000

/-- `timespec_t`. -/
structure Timespec where
  tv_sec : Nat
  tv_nsec : Nat
  deriving DecidableEq, Repr

/-- `clock_gettime(CLOCK_MONOTONIC)` of the time base. -/
def clock_gettime (tb : Nat) : Timespec :=
  let (sec, nsec) := convertTicksToSec tb
  ⟨sec, nsec⟩

/-- The nanoseconds of a reading, in 64 bits. -/
def Timespec.ns (t : Timespec) : Nat := (NS_PER_SEC * t.tv_sec + t.tv_nsec) % 2 ^ 64

/-- The end of `msg_wait_timeout`: what it writes back. -/
def timeLeft (io_milliseconds : Nat) (start finish : Timespec) : Nat :=
  let start_time_ns := start.ns
  let finish_time_ns := finish.ns
  if finish_time_ns > start_time_ns then
    sub64 io_milliseconds ((finish_time_ns - start_time_ns) / NS_PER_MSEC)
  else 0

/-! ## Calls in time -/

/-- Where the caller is: outside of a call, between the first reading of the clock and
the creation of the helper task, or behind it.  A call keeps its argument and the first
reading. -/
inductive Phase where
  | idle
  | begun (milliseconds : Nat) (start : Timespec)
  | waiting (milliseconds : Nat) (start : Timespec)
  deriving DecidableEq, Repr

/-- A finished call: its argument, its two readings of the clock and what it wrote
back. -/
structure Finished where
  milliseconds : Nat
  start : Timespec
  finish : Timespec
  left : Nat
  deriving DecidableEq, Repr

/-- The system with the time base.  The last field is not in the source. -/
structure Timed where
  sys : Sys
  tb : Nat
  phase : Phase
  finished : List Finished

/-- The start. -/
def Timed.init (msgs : Nat → Message) : Timed := ⟨Sys.init msgs, 0, .idle, []⟩

/-- The steps. -/
inductive TimedAct where
  | tick (ticks : Nat)
  | begin (milliseconds : Nat)
  | act (a : Act)
  | finish
  deriving DecidableEq, Repr

/-- The phase after a step of the system, which makes a call only when one has begun. -/
def Phase.after (phase : Phase) : Act → Option Phase
  | .call _ _ milliseconds =>
    match phase with
    | .begun given start => if given = milliseconds then some (.waiting given start) else none
    | _ => none
  | _ => some phase

/-- A step: time passes, a call reads the clock, the system of the tasks takes a step, or
a call that is out of its loop reads the clock again and returns. -/
inductive TimedStep (c q : Nat) : Timed → TimedAct → Timed → Prop
  | tick {s : Timed} {ticks : Nat} (hlt : s.tb + ticks < 2 ^ 64) :
      TimedStep c q s (.tick ticks) { s with tb := s.tb + ticks }
  | begin {s : Timed} {milliseconds : Nat} (hidle : s.phase = .idle)
      (hlt : milliseconds < 2 ^ 64) :
      TimedStep c q s (.begin milliseconds)
        { s with phase := .begun milliseconds (clock_gettime s.tb) }
  | act {s : Timed} {a : Act} {sys : Sys} {phase : Phase} (hstep : Step c q s.sys a sys)
      (hphase : s.phase.after a = some phase) :
      TimedStep c q s (.act a) { s with sys := sys, phase := phase }
  | finish {s : Timed} {milliseconds : Nat} {start : Timespec}
      (hphase : s.phase = .waiting milliseconds start) (hcall : s.sys.call = none) :
      TimedStep c q s .finish { s with
        phase := .idle
        finished := s.finished ++ [⟨milliseconds, start, clock_gettime s.tb,
          timeLeft milliseconds start (clock_gettime s.tb)⟩] }

/-! ## What is left -/

/-- What is written back is at most what was given exactly when the second reading is
less than one millisecond later than the first reading and the milliseconds given. -/
theorem timeLeft_le_iff {milliseconds : Nat} (hlt : milliseconds < 2 ^ 64)
    (start finish : Timespec) :
    timeLeft milliseconds start finish ≤ milliseconds ↔
      finish.ns < start.ns + (milliseconds + 1) * NS_PER_MSEC := by
  have hfinish : finish.ns < 2 ^ 64 := Nat.mod_lt _ (by decide)
  have hns : 0 < (milliseconds + 1) * NS_PER_MSEC := Nat.mul_pos (Nat.succ_pos _) (by decide)
  unfold timeLeft
  dsimp only
  by_cases hlater : finish.ns > start.ns
  · rw [if_pos hlater]
    have hwhole : (finish.ns - start.ns) / NS_PER_MSEC ≤ milliseconds ↔
        finish.ns - start.ns < (milliseconds + 1) * NS_PER_MSEC := by
      rw [← Nat.lt_succ_iff, Nat.div_lt_iff_lt_mul (by decide)]
    have hsmall : (finish.ns - start.ns) / NS_PER_MSEC < 2 ^ 64 :=
      lt_of_le_of_lt (Nat.div_le_self _ _) (by omega)
    by_cases hin : (finish.ns - start.ns) / NS_PER_MSEC ≤ milliseconds
    · rw [sub64_of_le hin hlt]
      have hless := hwhole.mp hin
      exact iff_of_true (Nat.sub_le _ _) (by omega)
    · -- the subtraction goes around
      have hmore := mt hwhole.mpr hin
      have hwrap : sub64 milliseconds ((finish.ns - start.ns) / NS_PER_MSEC)
          = milliseconds + (2 ^ 64 - (finish.ns - start.ns) / NS_PER_MSEC) :=
        Nat.mod_eq_of_lt (by omega)
      rw [hwrap]
      exact iff_of_false (by omega) (by omega)
  · rw [if_neg hlater]
    exact iff_of_true (Nat.zero_le _) (by omega)

/-- The calls that run or have returned were given a 64-bit number, and those that have
returned wrote back the time left. -/
structure TimesOk (s : Timed) : Prop where
  begun : ∀ milliseconds start, s.phase = .begun milliseconds start → milliseconds < 2 ^ 64
  waiting : ∀ milliseconds start, s.phase = .waiting milliseconds start → milliseconds < 2 ^ 64
  finished : ∀ r ∈ s.finished,
    r.milliseconds < 2 ^ 64 ∧ r.left = timeLeft r.milliseconds r.start r.finish

variable {c q : Nat}

/-- A step of the system leaves the phase alone, or makes the call that has begun. -/
theorem Phase.after_cases {phase phase' : Phase} {a : Act} (h : phase.after a = some phase') :
    phase' = phase ∨
      ∃ milliseconds start, phase = .begun milliseconds start ∧
        phase' = .waiting milliseconds start := by
  cases a with
  | call d w milliseconds =>
    cases phase with
    | begun given start =>
      rw [Phase.after] at h
      split at h
      · exact Or.inr ⟨given, start, rfl, (Option.some.inj h).symm⟩
      · exact absurd h (by simp)
    | idle => exact absurd h (by simp [Phase.after])
    | waiting given start => exact absurd h (by simp [Phase.after])
  | wait | receive | poll | send | other => exact Or.inl (Option.some.inj h).symm

theorem TimesOk.step {s s' : Timed} {a : TimedAct} (h : TimesOk s) (hstep : TimedStep c q s a s') :
    TimesOk s' := by
  cases hstep with
  | tick hlt => exact ⟨h.begun, h.waiting, h.finished⟩
  | begin hidle hlt =>
    refine ⟨fun milliseconds start hphase => ?_, fun milliseconds start hphase => ?_, h.finished⟩
    · obtain ⟨rfl, -⟩ := Phase.begun.inj hphase
      exact hlt
    · exact absurd hphase (by simp)
  | act hact hphase =>
    rcases Phase.after_cases hphase with hsame | ⟨given, start, hbegun, hwaiting⟩
    · refine ⟨fun milliseconds start' hphase' => ?_, fun milliseconds start' hphase' => ?_,
        h.finished⟩
      · exact h.begun milliseconds start' (hsame.symm.trans hphase')
      · exact h.waiting milliseconds start' (hsame.symm.trans hphase')
    · subst hwaiting
      refine ⟨fun milliseconds start' hphase' => ?_, fun milliseconds start' hphase' => ?_,
        h.finished⟩
      · exact absurd hphase' (by simp)
      · obtain ⟨rfl, -⟩ := Phase.waiting.inj hphase'
        exact h.begun _ _ hbegun
  | finish hphase hcall =>
    refine ⟨fun milliseconds start' hphase' => ?_, fun milliseconds start' hphase' => ?_,
      fun r hr => ?_⟩
    · exact absurd hphase' (by simp)
    · exact absurd hphase' (by simp)
    · rcases List.mem_append.mp hr with hold | hnew
      · exact h.finished r hold
      · obtain rfl := List.mem_singleton.mp hnew
        exact ⟨h.waiting _ _ hphase, rfl⟩

/-- In every run of calls, helper tasks, other tasks and time, a call that has returned
wrote back at most what it was given exactly when it took, by its own readings of the
clock, less than one millisecond more than it was given. -/
theorem timeLeft_of_run {msgs : Nat → Message} {acts : List TimedAct} {s : Timed}
    (hrun : Run (TimedStep c q) (Timed.init msgs) acts s) :
    ∀ r ∈ s.finished, r.left ≤ r.milliseconds ↔
      r.finish.ns < r.start.ns + (r.milliseconds + 1) * NS_PER_MSEC := by
  have hinit : TimesOk (Timed.init msgs) := ⟨nofun, nofun, nofun⟩
  have hok : TimesOk s := hrun.invariant hinit fun _ _ _ h hstep => h.step hstep
  intro r hr
  obtain ⟨hlt, hleft⟩ := hok.finished r hr
  rw [hleft]
  exact timeLeft_le_iff hlt r.start r.finish

/-- A call with one millisecond that no message ends: the helper task is late, and two
milliseconds pass. -/
def lateCall : List TimedAct :=
  [.begin 1, .act (.call 7 2 1), .tick 1024000, .act .poll, .act .poll, .act .send, .act .wait,
    .act .receive, .finish]

theorem run_lateCall :
    ∃ s, Run (TimedStep 0 0) (Timed.init userMessages) lateCall s ∧
      s.finished = [⟨1, ⟨0, 0⟩, ⟨0, 2000000⟩, 2 ^ 64 - 1⟩] := by
  have hunused : Unused (Sys.init userMessages).kernel 7 := by
    refine ⟨fun q => ?_, fun t q => ?_⟩ <;> simp [Sys.init, State.init]
  refine ⟨_, .cons (.begin rfl (by decide)) (.cons (.act (.call rfl (by decide) hunused) rfl)
    (.cons (.tick (by decide)) (.cons (.act (.poll rfl rfl) rfl) (.cons (.act (.poll rfl rfl) rfl)
      (.cons (.act (.send rfl rfl) rfl) (.cons (.act (.wait rfl rfl) rfl)
        (.cons (.act (.done rfl rfl rfl rfl) rfl) (.cons (.finish rfl rfl) .nil)))))))), rfl⟩

theorem timeLeft_of_run_lateCall :
    ∃ s, Run (TimedStep 0 0) (Timed.init userMessages) lateCall s ∧
      ∀ r ∈ s.finished, r.left ≤ r.milliseconds ↔
        r.finish.ns < r.start.ns + (r.milliseconds + 1) * NS_PER_MSEC := by
  obtain ⟨s, hrun, -⟩ := run_lateCall
  exact ⟨s, hrun, timeLeft_of_run hrun⟩

/-- The late call wrote back more than it was given. -/
theorem timeLeft_wraps :
    ∃ acts s, Run (TimedStep 0 0) (Timed.init userMessages) acts s ∧
      ∃ r ∈ s.finished, r.milliseconds = 1 ∧ r.left = 2 ^ 64 - 1 := by
  obtain ⟨s, hrun, hfinished⟩ := run_lateCall
  refine ⟨lateCall, s, hrun, ⟨1, ⟨0, 0⟩, ⟨0, 2000000⟩, 2 ^ 64 - 1⟩, ?_, rfl, rfl⟩
  rw [hfinished]
  exact List.mem_singleton.mpr rfl

end Hostboot.Msg.Timeout
