import Mathlib.Algebra.Group.Nat.Defs
import Mathlib.Data.List.Induction
import Mathlib.Tactic.Common

/-!
# Time-based thresholds

`TimeBasedThreshold` of `src/usr/diag/prdf/common/util/` counts events in intervals of
time.  An interval starts with the first event, or with the first event after the last
interval.  The times are `Timer`s, the seconds since the beginning of the year, and one
of them is after another when it is less than half a year ahead.
-/

namespace Hostboot.Prdf.Threshold

/-! ## The source -/

/-- `Timer::YEAR`. -/
def YEAR : Nat := 31536000

/-- `Timer::HALF_YEAR`. -/
def HALF_YEAR : Nat := 15768000

/-- A `Timer`: the seconds since the beginning of the year. -/
structure Timer where
  xSec : Nat
  deriving DecidableEq, Repr

/-- The constructor from seconds, and the assignment of seconds. -/
def Timer.ofSeconds (seconds : Nat) : Timer := ⟨seconds % YEAR⟩

/-- `operator+`. -/
def Timer.add (t : Timer) (seconds : Nat) : Timer :=
  let seconds := seconds % YEAR
  let seconds := (seconds + t.xSec) % 2 ^ 32
  let seconds := seconds % YEAR
  Timer.ofSeconds seconds

/-- `operator>`. -/
def Timer.gt (t t2 : Timer) : Bool :=
  (t.xSec > t2.xSec && t.xSec - t2.xSec < HALF_YEAR) ||
    (t.xSec < t2.xSec && t2.xSec - t.xSec > HALF_YEAR)

structure ThresholdPolicy where
  threshold : UInt8
  interval : UInt32
  deriving DecidableEq, Repr

structure TimeBasedThreshold where
  iv_thPolicy : ThresholdPolicy
  iv_count : UInt8
  iv_timer : Timer
  iv_timerInited : Bool
  deriving DecidableEq, Repr

namespace TimeBasedThreshold

/-- The constructor from a policy. -/
def new (i_thPolicy : ThresholdPolicy) : TimeBasedThreshold := ⟨i_thPolicy, 0, ⟨0⟩, false⟩

def reset (th : TimeBasedThreshold) : TimeBasedThreshold :=
  { th with iv_timerInited := false, iv_count := 0 }

def getCount (th : TimeBasedThreshold) : UInt8 := if th.iv_timerInited then th.iv_count else 0

/-- `timeElapsed`, at the time of error `toe`. -/
def timeElapsed (th : TimeBasedThreshold) (toe : Timer) : Bool :=
  th.iv_timerInited && toe.gt th.iv_timer

def thReached (th : TimeBasedThreshold) (toe : Timer) : Bool :=
  !th.timeElapsed toe && decide (th.iv_thPolicy.threshold ≤ th.iv_count)

/-- `inc` by an amount: the threshold afterwards and the answer. -/
def inc (th : TimeBasedThreshold) (toe : Timer) (i_count : UInt8) : TimeBasedThreshold × Bool :=
  let th :=
    if !th.iv_timerInited || th.timeElapsed toe then
      { th.reset with
        iv_timer := toe.add th.iv_thPolicy.interval.toNat
        iv_timerInited := true }
    else th
  let th := { th with iv_count := th.iv_count + i_count }
  (th, th.thReached toe)

/-- `inc` by 1. -/
def incOne (th : TimeBasedThreshold) (toe : Timer) : TimeBasedThreshold × Bool := th.inc toe 1

end TimeBasedThreshold

/-! ## What is counted -/

/-- A call: an event at a time, with its count, or a reset. -/
inductive Event (τ : Type) where
  | inc (time : τ) (count : UInt8)
  | reset
  deriving DecidableEq, Repr

/-- The threshold after a call. -/
def exec (th : TimeBasedThreshold) : Event Timer → TimeBasedThreshold
  | .inc toe count => (th.inc toe count).1
  | .reset => th.reset

/-- The threshold after calls of a new one. -/
def run (policy : ThresholdPolicy) (events : List (Event Timer)) : TimeBasedThreshold :=
  events.foldl exec (TimeBasedThreshold.new policy)

/-- The current interval: when it started and the sum of the counts since. -/
structure Window (τ : Type) where
  start : τ
  sum : Nat
  deriving DecidableEq, Repr

/-- The interval after an event at a time. -/
def Window.next {τ : Type} (elapsed : τ → τ → Bool) (time : τ) (count : UInt8) :
    Option (Window τ) → Window τ
  | none => ⟨time, count.toNat⟩
  | some w => if elapsed w.start time then ⟨time, count.toNat⟩ else ⟨w.start, w.sum + count.toNat⟩

/-- The interval after a call. -/
def Window.call {τ : Type} (elapsed : τ → τ → Bool) (w : Option (Window τ)) :
    Event τ → Option (Window τ)
  | .inc time count => some (Window.next elapsed time count w)
  | .reset => none

/-- The interval after calls, none when no event has been counted since the start or
the last reset. -/
def current {τ : Type} (elapsed : τ → τ → Bool) (events : List (Event τ)) : Option (Window τ) :=
  events.foldl (Window.call elapsed) none

/-- By the timers: the time is after the start and the interval. -/
def byTimer (interval : Nat) (start time : Timer) : Bool := time.gt (start.add interval)

/-- By the seconds: more of them have passed than the interval has. -/
def bySeconds (interval start time : Nat) : Bool := decide (start + interval < time)

/-! ## The counter -/

/-- The counter and the timer belong to the current interval. -/
structure Counts (policy : ThresholdPolicy) (w : Option (Window Timer))
    (th : TimeBasedThreshold) : Prop where
  kept : th.iv_thPolicy = policy
  inited : th.iv_timerInited = w.isSome
  timer : ∀ v, w = some v → th.iv_timer = v.start.add policy.interval.toNat
  count : ∀ v, w = some v → th.iv_count = UInt8.ofNat v.sum

variable {policy : ThresholdPolicy} {w : Option (Window Timer)} {th : TimeBasedThreshold}
  {toe : Timer} {count : UInt8}

theorem Counts.elapsed {v : Window Timer} (h : Counts policy (some v) th) (toe : Timer) :
    th.timeElapsed toe = byTimer policy.interval.toNat v.start toe := by
  unfold TimeBasedThreshold.timeElapsed byTimer
  rw [h.inited, h.timer v rfl, Option.isSome_some, Bool.true_and]

theorem Counts.inc (h : Counts policy w th) (toe : Timer) (count : UInt8) :
    Counts policy (some (Window.next (byTimer policy.interval.toNat) toe count w))
      (th.inc toe count).1 := by
  have hfresh : Counts policy (some ⟨toe, count.toNat⟩)
      { th.reset with
        iv_timer := toe.add th.iv_thPolicy.interval.toNat
        iv_timerInited := true
        iv_count := 0 + count } := by
    refine ⟨h.kept, rfl, fun v hv => ?_, fun v hv => ?_⟩
    · obtain rfl := Option.some.inj hv
      dsimp only
      rw [h.kept]
    · obtain rfl := Option.some.inj hv
      dsimp only
      rw [UInt8.zero_add, UInt8.ofNat_toNat]
  unfold TimeBasedThreshold.inc
  cases w with
  | none =>
    have hinited : th.iv_timerInited = false := h.inited
    rw [hinited]
    exact hfresh
  | some v =>
    have hinited : th.iv_timerInited = true := h.inited
    rw [hinited, h.elapsed toe, Bool.not_true, Bool.false_or, Window.next]
    by_cases helapsed : byTimer policy.interval.toNat v.start toe = true
    · rw [if_pos helapsed, if_pos helapsed]
      exact hfresh
    · rw [if_neg helapsed, if_neg helapsed]
      refine ⟨h.kept, hinited, fun u hu => ?_, fun u hu => ?_⟩
      · obtain rfl := Option.some.inj hu
        exact h.timer v rfl
      · obtain rfl := Option.some.inj hu
        dsimp only
        rw [h.count v rfl, UInt8.ofNat_add, UInt8.ofNat_toNat]

theorem Counts.exec (h : Counts policy w th) (e : Event Timer) :
    Counts policy (Window.call (byTimer policy.interval.toNat) w e) (exec th e) := by
  cases e with
  | inc toe count => exact h.inc toe count
  | reset => exact ⟨h.kept, rfl, nofun, nofun⟩

theorem counts_of_run (policy : ThresholdPolicy) (events : List (Event Timer)) :
    Counts policy (current (byTimer policy.interval.toNat) events) (run policy events) := by
  induction events using List.reverseRecOn with
  | nil => exact ⟨rfl, rfl, nofun, nofun⟩
  | append_singleton events e ih =>
    unfold current run
    rw [List.foldl_append, List.foldl_append]
    exact ih.exec e

theorem Counts.answer (h : Counts policy w th) (toe : Timer) (count : UInt8) {v : Window Timer}
    (hv : Window.next (byTimer policy.interval.toNat) toe count w = v) :
    (th.inc toe count).2 = true ↔
      byTimer policy.interval.toNat v.start toe = false ∧
        policy.threshold.toNat ≤ v.sum % 256 := by
  subst hv
  have hafter := h.inc toe count
  have hanswer : (th.inc toe count).2 = (th.inc toe count).1.thReached toe := rfl
  rw [hanswer, TimeBasedThreshold.thReached, hafter.elapsed, hafter.kept, hafter.count _ rfl,
    Bool.and_eq_true, Bool.not_eq_true', decide_eq_true_iff, UInt8.le_iff_toNat_le,
    UInt8.toNat_ofNat']

/-! ## Seconds -/

theorem Timer.add_ofSeconds (s i : Nat) : (Timer.ofSeconds s).add i = Timer.ofSeconds (s + i) := by
  unfold Timer.add Timer.ofSeconds YEAR
  simp only [Timer.mk.injEq]
  omega

/-- The order of the timers is that of the seconds as long as the interval has at most
half a year and no half year has passed since its end. -/
theorem byTimer_ofSeconds {i s t : Nat} (hi : i ≤ HALF_YEAR) (hst : s ≤ t)
    (ht : t < s + i + HALF_YEAR) :
    byTimer i (Timer.ofSeconds s) (Timer.ofSeconds t) = bySeconds i s t := by
  unfold byTimer bySeconds
  rw [Timer.add_ofSeconds]
  unfold Timer.gt Timer.ofSeconds
  unfold HALF_YEAR at *
  unfold YEAR
  rw [Bool.eq_iff_iff]
  simp only [Bool.or_eq_true, Bool.and_eq_true, decide_eq_true_eq]
  omega

/-- A call at a time in seconds. -/
def Event.atSeconds : Event Nat → Event Timer
  | .inc time count => .inc (Timer.ofSeconds time) count
  | .reset => .reset

/-- The window with its start in seconds. -/
def Window.atSeconds (w : Window Nat) : Window Timer := ⟨Timer.ofSeconds w.start, w.sum⟩

/-- An event comes while the timers can still tell how long ago the interval started. -/
def InReach (interval : Nat) (w : Option (Window Nat)) : Event Nat → Prop
  | .inc time _ => ∀ v, w = some v → v.start ≤ time ∧ time < v.start + interval + HALF_YEAR
  | .reset => True

/-- All events of a run come in reach of the interval of their time. -/
def AllInReach (interval : Nat) : Option (Window Nat) → List (Event Nat) → Prop
  | _, [] => True
  | w, e :: events =>
    InReach interval w e ∧ AllInReach interval (Window.call (bySeconds interval) w e) events

theorem allInReach_append {interval : Nat} {w : Option (Window Nat)} {events : List (Event Nat)}
    {e : Event Nat} :
    AllInReach interval w (events ++ [e]) ↔ AllInReach interval w events ∧
      InReach interval (events.foldl (Window.call (bySeconds interval)) w) e := by
  induction events generalizing w with
  | nil => exact and_comm
  | cons x events ih =>
    rw [List.cons_append, AllInReach, AllInReach, ih, and_assoc]
    rfl

theorem window_call_atSeconds {interval : Nat} (hi : interval ≤ HALF_YEAR)
    {w : Option (Window Nat)} {e : Event Nat} (he : InReach interval w e) :
    Window.call (byTimer interval) (w.map Window.atSeconds) e.atSeconds =
      (Window.call (bySeconds interval) w e).map Window.atSeconds := by
  cases e with
  | reset => rfl
  | inc time count =>
    cases w with
    | none => rfl
    | some v =>
      obtain ⟨hstart, hend⟩ := he v rfl
      have horder := byTimer_ofSeconds hi hstart hend
      simp only [Option.map_some, Event.atSeconds, Window.call, Window.next, Window.atSeconds,
        horder]
      by_cases helapsed : bySeconds interval v.start time = true
      · rw [if_pos helapsed, if_pos helapsed]
      · rw [if_neg helapsed, if_neg helapsed]

theorem current_atSeconds {interval : Nat} (hi : interval ≤ HALF_YEAR) {events : List (Event Nat)}
    (hreach : AllInReach interval none events) :
    current (byTimer interval) (events.map Event.atSeconds) =
      (current (bySeconds interval) events).map Window.atSeconds := by
  induction events using List.reverseRecOn with
  | nil => rfl
  | append_singleton events e ih =>
    obtain ⟨hbefore, hlast⟩ := allInReach_append.1 hreach
    have ih := ih hbefore
    unfold current at ih ⊢
    rw [List.map_append, List.foldl_append, List.foldl_append, ih]
    exact window_call_atSeconds hi hlast

theorem own_interval {interval : Nat} (hi : interval ≤ HALF_YEAR) {w : Option (Window Nat)}
    {time : Nat} {count : UInt8} (he : InReach interval w (.inc time count)) :
    byTimer interval (Timer.ofSeconds (Window.next (bySeconds interval) time count w).start)
      (Timer.ofSeconds time) = false := by
  have hfresh : byTimer interval (Timer.ofSeconds time) (Timer.ofSeconds time) = false := by
    rw [byTimer_ofSeconds hi (Nat.le_refl time) (by unfold HALF_YEAR; omega)]
    exact decide_eq_false (by omega)
  cases w with
  | none => exact hfresh
  | some v =>
    obtain ⟨hstart, hend⟩ := he v rfl
    rw [Window.next]
    by_cases helapsed : bySeconds interval v.start time = true
    · rw [if_pos helapsed]
      exact hfresh
    · rw [if_neg helapsed, byTimer_ofSeconds hi hstart hend]
      exact Bool.eq_false_iff.mpr helapsed

/-! ## `inc` -/

/-- `inc` answers that the threshold is reached exactly when the counts since the start of
the interval add up to it, where their sum reaches the threshold modulo 256 too.  First
the interval is the one of the timers, and an event must not be after the end of the
interval that it starts itself, as it is with an interval of more than half a year.  Then
it is the one of the seconds that have passed. -/
theorem inc_reached_iff (policy : ThresholdPolicy) :
    (∀ (events : List (Event Timer)) (toe : Timer) (count : UInt8),
      let elapsed := byTimer policy.interval.toNat
      let v := Window.next elapsed toe count (current elapsed events)
      (((run policy events).inc toe count).2 = true ↔ policy.threshold.toNat ≤ v.sum) ↔
        (policy.threshold.toNat ≤ v.sum →
          policy.threshold.toNat ≤ v.sum % 256 ∧ elapsed v.start toe = false)) ∧
    ∀ (events : List (Event Nat)) (time : Nat) (count : UInt8),
      policy.interval.toNat ≤ HALF_YEAR →
      AllInReach policy.interval.toNat none (events ++ [.inc time count]) →
      let elapsed := bySeconds policy.interval.toNat
      let v := Window.next elapsed time count (current elapsed events)
      (((run policy (events.map Event.atSeconds)).inc (Timer.ofSeconds time) count).2 = true ↔
          policy.threshold.toNat ≤ v.sum) ↔
        (policy.threshold.toNat ≤ v.sum → policy.threshold.toNat ≤ v.sum % 256) := by
  have htimers : ∀ (events : List (Event Timer)) (toe : Timer) (count : UInt8),
      let elapsed := byTimer policy.interval.toNat
      let v := Window.next elapsed toe count (current elapsed events)
      (((run policy events).inc toe count).2 = true ↔ policy.threshold.toNat ≤ v.sum) ↔
        (policy.threshold.toNat ≤ v.sum →
          policy.threshold.toNat ≤ v.sum % 256 ∧ elapsed v.start toe = false) := by
    intro events toe count elapsed v
    rw [(counts_of_run policy events).answer toe count rfl]
    have hmod : v.sum % 256 ≤ v.sum := Nat.mod_le _ _
    constructor
    · intro h hsum
      exact (h.mpr hsum).symm
    · intro h
      constructor
      · rintro ⟨-, hreached⟩
        exact Nat.le_trans hreached hmod
      · intro hsum
        exact (h hsum).symm
  refine ⟨htimers, fun events time count hi hreach => ?_⟩
  intro elapsed v
  obtain ⟨hbefore, hin⟩ := allInReach_append.1 hreach
  have hnext : Window.next (byTimer policy.interval.toNat) (Timer.ofSeconds time) count
      (current (byTimer policy.interval.toNat) (events.map Event.atSeconds)) = v.atSeconds := by
    rw [current_atSeconds hi hbefore]
    exact Option.some.inj (window_call_atSeconds hi hin)
  have hown : byTimer policy.interval.toNat v.atSeconds.start (Timer.ofSeconds time) = false :=
    own_interval hi hin
  have h := htimers (events.map Event.atSeconds) (Timer.ofSeconds time) count
  simp only [hnext, hown, and_true] at h
  exact h

/-- 128 and 127 events in a minute with the threshold 200, the last one 20 seconds after
the first: the threshold is reached. -/
theorem inc_reached_iff_minute :
    let policy : ThresholdPolicy := ⟨200, 60⟩
    ((run policy [.inc (Timer.ofSeconds 100) 128]).inc (Timer.ofSeconds 120) 127).2 = true := by
  intro policy
  have hreach : AllInReach 60 none [.inc 100 128, .inc 120 127] := by
    refine ⟨nofun, fun v hv => ?_, trivial⟩
    obtain rfl := Option.some.inj hv
    decide
  have h := (inc_reached_iff policy).2 [.inc 100 128] 120 127 (by decide) hreach
  exact (h.mpr fun _ => by decide).mpr (by decide)

/-- The threshold 1 is reached by 255 events, and not any more by one more event at the
same time. -/
theorem reached_then_lost :
    let policy : ThresholdPolicy := ⟨1, 60⟩
    let th := TimeBasedThreshold.new policy
    (th.inc ⟨100⟩ 255).2 = true ∧ ((th.inc ⟨100⟩ 255).1.inc ⟨100⟩ 1).2 = false ∧
      Window.next (byTimer 60) ⟨100⟩ 1 (current (byTimer 60) [.inc ⟨100⟩ 255]) = ⟨⟨100⟩, 256⟩ := by
  decide

end Hostboot.Prdf.Threshold
