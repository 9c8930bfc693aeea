import Hostboot.Prdf.Threshold
import Mathlib.Logic.Function.Basic

/-!
# The threshold resolutions

`ThresholdResolution` and `ThresholdSigResolution` of
`src/usr/diag/prdf/common/framework/resolution/` count errors and set a mask when a
threshold is reached within an interval.  The first has one counter, the second has one
for each error signature.
-/

namespace Hostboot.Prdf.Threshold

open List

/-! ## The source -/

structure ErrorSignature where
  iv_chipId : UInt32
  iv_regId : UInt16
  iv_errCode : UInt16
  deriving DecidableEq, Repr

def ErrorSignature.getSigId (sig : ErrorSignature) : UInt32 :=
  (sig.iv_regId.toUInt32 <<< 16) ||| sig.iv_errCode.toUInt32

/-- What the resolutions use of a `ServiceDataCollector`.  `isAtThreshold`, `isDegraded`
and `serviceCall` are flags. -/
structure ServiceDataCollector where
  ivCurrentEventTime : Timer
  error_signature : ErrorSignature
  hitCount : UInt8
  threshold : UInt8
  maskId : UInt32
  isAtThreshold : Bool
  isDegraded : Bool
  serviceCall : Bool
  deriving DecidableEq, Repr

def ServiceDataCollector.SetThresholdMaskId (sdc : ServiceDataCollector) (mask_id : UInt32) :
    ServiceDataCollector :=
  { sdc with isAtThreshold := true, isDegraded := true, serviceCall := true, maskId := mask_id }

structure ThresholdResolution where
  iv_maskId : UInt32
  iv_policy : ThresholdPolicy
  iv_count : UInt32
  iv_endTime : Timer
  deriving DecidableEq, Repr

namespace ThresholdResolution

/-- The constructor. -/
def new (maskId : UInt32) (policy : ThresholdPolicy) : ThresholdResolution :=
  ⟨maskId, policy, 0, ⟨0⟩⟩

/-- `Resolve`, which always returns `SUCCESS`. -/
def Resolve (r : ThresholdResolution) (error : ServiceDataCollector) :
    ThresholdResolution × ServiceDataCollector :=
  let curTime := error.ivCurrentEventTime
  let r := { r with iv_count := r.iv_count + 1 }
  let error := { error with hitCount := r.iv_count.toUInt8, threshold := r.iv_policy.threshold }
  if r.iv_count = 1 then
    let r := { r with iv_endTime := curTime.add r.iv_policy.interval.toNat }
    if r.iv_count = r.iv_policy.threshold.toUInt32 then
      ({ r with iv_count := 0 }, error.SetThresholdMaskId r.iv_maskId)
    else (r, error)
  else if curTime.gt r.iv_endTime then
    let r := { r with iv_count := 1 }
    let error := { error with hitCount := r.iv_count.toUInt8 }
    ({ r with iv_endTime := curTime.add r.iv_policy.interval.toNat }, error)
  else if r.iv_count = r.iv_policy.threshold.toUInt32 then
    ({ r with iv_count := 0 }, error.SetThresholdMaskId r.iv_maskId)
  else (r, error)

end ThresholdResolution

/-- `ThresholdSigResolution`.  The map `iv_thresholds` makes an entry of zeros for a
signature when it is asked for the first time. -/
structure ThresholdSigResolution where
  iv_policy : ThresholdPolicy
  iv_thresholds : ErrorSignature → UInt32 × Timer

namespace ThresholdSigResolution

/-- The constructor. -/
def new (policy : ThresholdPolicy) : ThresholdSigResolution := ⟨policy, fun _ => (0, ⟨0⟩)⟩

/-- `Resolve`, which always returns `SUCCESS`. -/
def Resolve (r : ThresholdSigResolution) (error : ServiceDataCollector) :
    ThresholdSigResolution × ServiceDataCollector :=
  let curTime := error.ivCurrentEventTime
  let sig := error.error_signature
  let countTime := r.iv_thresholds sig
  let count := countTime.1 + 1
  let store := fun countTime : UInt32 × Timer =>
    { r with iv_thresholds := Function.update r.iv_thresholds sig countTime }
  let error := { error with hitCount := count.toUInt8, threshold := r.iv_policy.threshold }
  if 1 = count then
    let endTime := curTime.add r.iv_policy.interval.toNat
    if count = r.iv_policy.threshold.toUInt32 then
      (store (0, endTime), error.SetThresholdMaskId sig.getSigId)
    else (store (count, endTime), error)
  else if curTime.gt countTime.2 then
    (store (1, curTime.add r.iv_policy.interval.toNat),
      { error with hitCount := (1 : UInt32).toUInt8 })
  else if count = r.iv_policy.threshold.toUInt32 then
    (store (0, countTime.2), error.SetThresholdMaskId sig.getSigId)
  else (store (count, countTime.2), error)

end ThresholdSigResolution

/-! ## The windows -/

/-- The window after an occurrence in or behind it.  The occurrence that completes the
threshold closes it. -/
def windowStep {τ : Type} (threshold : Nat) (elapsed : τ → τ → Bool) (w : Option (Window τ))
    (time : τ) : Option (Window τ) :=
  if (Window.next elapsed time 1 w).sum = threshold then none
  else some (Window.next elapsed time 1 w)

/-- The window after occurrences at these times, none when no occurrence has come since
the construction or the last mask. -/
def windowAfter {τ : Type} (threshold : Nat) (elapsed : τ → τ → Bool) (times : List τ) :
    Option (Window τ) := times.foldl (windowStep threshold elapsed) none

/-- The service data of an occurrence that is the last one in `v`. -/
def answer (policy : ThresholdPolicy) (maskId : UInt32) {τ : Type} (v : Window τ)
    (error : ServiceDataCollector) : ServiceDataCollector :=
  let error := { error with hitCount := UInt8.ofNat v.sum, threshold := policy.threshold }
  if v.sum = policy.threshold.toNat then error.SetThresholdMaskId maskId else error

/-! ## The counters -/

/-- What an occurrence does to a counter and the end of its window: the new ones, the hits
and whether the mask is set. -/
def occurrence (policy : ThresholdPolicy) (state : UInt32 × Timer) (time : Timer) :
    (UInt32 × Timer) × UInt8 × Bool :=
  let count := state.1 + 1
  if count = 1 then
    let endTime := time.add policy.interval.toNat
    if count = policy.threshold.toUInt32 then ((0, endTime), count.toUInt8, true)
    else ((count, endTime), count.toUInt8, false)
  else if time.gt state.2 then ((1, time.add policy.interval.toNat), 1, false)
  else if count = policy.threshold.toUInt32 then ((0, state.2), count.toUInt8, true)
  else ((count, state.2), count.toUInt8, false)

/-- The service data with the hits, and with the mask when it is set. -/
def ServiceDataCollector.report (error : ServiceDataCollector) (threshold : UInt8)
    (maskId : UInt32) (result : UInt8 × Bool) : ServiceDataCollector :=
  let error := { error with hitCount := result.1, threshold := threshold }
  if result.2 then error.SetThresholdMaskId maskId else error

theorem ThresholdResolution.resolve_eq (r : ThresholdResolution) (error : ServiceDataCollector) :
    r.Resolve error =
      let o := occurrence r.iv_policy (r.iv_count, r.iv_endTime) error.ivCurrentEventTime
      ({ r with iv_count := o.1.1, iv_endTime := o.1.2 },
        error.report r.iv_policy.threshold r.iv_maskId o.2) := by
  unfold Resolve occurrence
  dsimp only
  by_cases hfirst : r.iv_count + 1 = 1
  · rw [if_pos hfirst, if_pos hfirst]
    by_cases hlast : r.iv_count + 1 = r.iv_policy.threshold.toUInt32
    · rw [if_pos hlast, if_pos hlast]
      rfl
    · rw [if_neg hlast, if_neg hlast]
      rfl
  · rw [if_neg hfirst, if_neg hfirst]
    by_cases hlate : error.ivCurrentEventTime.gt r.iv_endTime = true
    · rw [if_pos hlate, if_pos hlate]
      rfl
    · rw [if_neg hlate, if_neg hlate]
      by_cases hlast : r.iv_count + 1 = r.iv_policy.threshold.toUInt32
      · rw [if_pos hlast, if_pos hlast]
        rfl
      · rw [if_neg hlast, if_neg hlast]
        rfl

theorem ThresholdSigResolution.resolve_eq (r : ThresholdSigResolution)
    (error : ServiceDataCollector) :
    r.Resolve error =
      let o := occurrence r.iv_policy (r.iv_thresholds error.error_signature)
        error.ivCurrentEventTime
      ({ r with iv_thresholds := Function.update r.iv_thresholds error.error_signature o.1 },
        error.report r.iv_policy.threshold error.error_signature.getSigId o.2) := by
  unfold Resolve occurrence
  dsimp only
  generalize r.iv_thresholds error.error_signature = countTime
  by_cases hfirst : countTime.1 + 1 = 1
  · rw [if_pos hfirst.symm, if_pos hfirst]
    by_cases hlast : countTime.1 + 1 = r.iv_policy.threshold.toUInt32
    · rw [if_pos hlast, if_pos hlast]
      rfl
    · rw [if_neg hlast, if_neg hlast]
      rfl
  · rw [if_neg (Ne.symm hfirst), if_neg hfirst]
    by_cases hlate : error.ivCurrentEventTime.gt countTime.2 = true
    · rw [if_pos hlate, if_pos hlate]
      rfl
    · rw [if_neg hlate, if_neg hlate]
      by_cases hlast : countTime.1 + 1 = r.iv_policy.threshold.toUInt32
      · rw [if_pos hlast, if_pos hlast]
        rfl
      · rw [if_neg hlast, if_neg hlast]
        rfl

/-- A counter and the end of its window belong to the open window. -/
structure Counted (policy : ThresholdPolicy) (w : Option (Window Timer)) (state : UInt32 × Timer) :
    Prop where
  closed : w = none → state.1 = 0
  count : ∀ v, w = some v → state.1.toNat = v.sum
  some_counted : ∀ v, w = some v → 0 < v.sum
  below : ∀ v, w = some v → v.sum < policy.threshold.toNat
  endTime : ∀ v, w = some v → state.2 = v.start.add policy.interval.toNat

section
variable {policy : ThresholdPolicy} {w : Option (Window Timer)} {state : UInt32 × Timer}

theorem counted_none (policy : ThresholdPolicy) (time : Timer) : Counted policy none (0, time) :=
  ⟨fun _ => rfl, nofun, nofun, nofun, nofun⟩

theorem counted_some {v : Window Timer} {count : UInt32} (hcount : count.toNat = v.sum)
    (hpos : 0 < v.sum) (hbelow : v.sum < policy.threshold.toNat) :
    Counted policy (some v) (count, v.start.add policy.interval.toNat) := by
  refine ⟨nofun, ?_, ?_, ?_, ?_⟩ <;> rintro _ ⟨⟩
  · exact hcount
  · exact hpos
  · exact hbelow
  · rfl

theorem eq_threshold_iff {count : UInt32} {n : Nat} (hcount : count.toNat = n) :
    count = policy.threshold.toUInt32 ↔ n = policy.threshold.toNat := by
  rw [← hcount, ← UInt32.toNat_inj, UInt8.toNat_toUInt32]

theorem Counted.step (hpos : 0 < policy.threshold.toNat) (h : Counted policy w state)
    (time : Timer) :
    let elapsed := byTimer policy.interval.toNat
    let v := Window.next elapsed time 1 w
    Counted policy (windowStep policy.threshold.toNat elapsed w time)
        (occurrence policy state time).1 ∧
      (occurrence policy state time).2
        = (UInt8.ofNat v.sum, decide (v.sum = policy.threshold.toNat)) := by
  intro elapsed v
  have hthreshold : policy.threshold.toNat < 256 := policy.threshold.toNat_lt
  unfold windowStep
  -- an occurrence that begins a window
  have hfresh : v = ⟨time, 1⟩ → 1 ≠ policy.threshold.toNat →
      Counted policy (if v.sum = policy.threshold.toNat then none else some v)
        (1, time.add policy.interval.toNat) ∧
      ((1 : UInt8), false) = (UInt8.ofNat v.sum, decide (v.sum = policy.threshold.toNat)) := by
    intro hv hne
    rw [hv, if_neg hne, decide_eq_false hne]
    exact ⟨@counted_some policy ⟨time, 1⟩ 1 rfl Nat.one_pos (by show 1 < _; omega), rfl⟩
  cases w with
  | none =>
    have hcount : state.1 + 1 = 1 := by
      rw [h.closed rfl]
      rfl
    have hv : v = ⟨time, 1⟩ := rfl
    unfold occurrence
    dsimp only
    rw [hcount, if_pos rfl]
    have hthe : (1 : UInt32) = policy.threshold.toUInt32 ↔ 1 = policy.threshold.toNat :=
      eq_threshold_iff rfl
    by_cases hone : 1 = policy.threshold.toNat
    · rw [if_pos (hthe.mpr hone)]
      show Counted policy (if v.sum = _ then none else some v) _ ∧ _
      rw [hv, if_pos hone]
      exact ⟨counted_none policy _, by rw [decide_eq_true hone]; rfl⟩
    · rw [if_neg (mt hthe.mp hone)]
      exact hfresh hv hone
  | some u =>
    have hsum := h.count u rfl
    have hlow := h.some_counted u rfl
    have hhigh := h.below u rfl
    have hcount : (state.1 + 1).toNat = u.sum + 1 := by
      rw [UInt32.toNat_add, hsum]
      show (u.sum + 1) % 2 ^ 32 = u.sum + 1
      omega
    have hnot : state.1 + 1 ≠ 1 := by
      intro heq
      rw [heq] at hcount
      have hone : 1 = u.sum + 1 := hcount
      omega
    unfold occurrence
    dsimp only
    rw [if_neg hnot, h.endTime u rfl]
    by_cases hlate : time.gt (u.start.add policy.interval.toNat) = true
    · have hv : v = ⟨time, 1⟩ := if_pos hlate
      rw [if_pos hlate]
      exact hfresh hv (by omega)
    · have hv : v = ⟨u.start, u.sum + 1⟩ := if_neg hlate
      rw [if_neg hlate]
      show Counted policy (if v.sum = _ then none else some v) _ ∧ _
      rw [hv]
      have hhits : (state.1 + 1).toUInt8 = UInt8.ofNat (u.sum + 1) := by
        rw [← hcount]
        rfl
      by_cases hlast : u.sum + 1 = policy.threshold.toNat
      · rw [if_pos ((eq_threshold_iff hcount).mpr hlast), if_pos hlast, decide_eq_true hlast, hhits]
        exact ⟨counted_none policy _, rfl⟩
      · rw [if_neg (mt (eq_threshold_iff hcount).mp hlast), if_neg hlast, decide_eq_false hlast,
          hhits]
        exact ⟨@counted_some policy ⟨u.start, u.sum + 1⟩ _ hcount (Nat.succ_pos _)
          (by show u.sum + 1 < _; omega), rfl⟩

end

/-! ## Runs -/

/-- The resolution after errors. -/
def ThresholdResolution.run (maskId : UInt32) (policy : ThresholdPolicy)
    (errors : List ServiceDataCollector) : ThresholdResolution :=
  errors.foldl (fun r error => (r.Resolve error).1) (.new maskId policy)

/-- The resolution after errors. -/
def ThresholdSigResolution.run (policy : ThresholdPolicy) (errors : List ServiceDataCollector) :
    ThresholdSigResolution :=
  errors.foldl (fun r error => (r.Resolve error).1) (.new policy)

/-- The times of the occurrences of a signature. -/
def timesOf (sig : ErrorSignature) (errors : List ServiceDataCollector) : List Timer :=
  (errors.filter fun error => error.error_signature = sig).map
    ServiceDataCollector.ivCurrentEventTime

section
variable {policy : ThresholdPolicy} {errors : List ServiceDataCollector}

theorem timesOf_append (sig : ErrorSignature) (error : ServiceDataCollector) :
    timesOf sig (errors ++ [error]) = timesOf sig errors ++
      if error.error_signature = sig then [error.ivCurrentEventTime] else [] := by
  unfold timesOf
  rw [filter_append, map_append]
  by_cases h : error.error_signature = sig
  · rw [if_pos h, filter_cons, if_pos (decide_eq_true h)]
    rfl
  · rw [if_neg h, filter_cons, if_neg (by simpa using h)]
    rfl

theorem windowAfter_append {τ : Type} (threshold : Nat) (elapsed : τ → τ → Bool)
    (times : List τ) (time : τ) : windowAfter threshold elapsed (times ++ [time]) =
      windowStep threshold elapsed (windowAfter threshold elapsed times) time :=
  foldl_append ..

theorem ThresholdResolution.run_policy (maskId : UInt32) :
    (run maskId policy errors).iv_policy = policy ∧
      (run maskId policy errors).iv_maskId = maskId := by
  induction errors using List.reverseRecOn with
  | nil => exact ⟨rfl, rfl⟩
  | append_singleton errors error ih =>
    unfold run at ih ⊢
    rw [foldl_append, foldl_cons, foldl_nil, resolve_eq]
    exact ih

theorem ThresholdSigResolution.run_policy : (run policy errors).iv_policy = policy := by
  induction errors using List.reverseRecOn with
  | nil => rfl
  | append_singleton errors error ih =>
    unfold run at ih ⊢
    rw [foldl_append, foldl_cons, foldl_nil, resolve_eq]
    exact ih

/-- The counter of a resolution without signatures counts all occurrences. -/
theorem ThresholdResolution.counted_of_run (maskId : UInt32) (hpos : 0 < policy.threshold.toNat) :
    Counted policy (windowAfter policy.threshold.toNat (byTimer policy.interval.toNat)
        (errors.map ServiceDataCollector.ivCurrentEventTime))
      ((run maskId policy errors).iv_count, (run maskId policy errors).iv_endTime) := by
  induction errors using List.reverseRecOn with
  | nil => exact counted_none policy _
  | append_singleton errors error ih =>
    have hpolicy := (@run_policy policy errors maskId).1
    have hrun : run maskId policy (errors ++ [error])
        = ((run maskId policy errors).Resolve error).1 := foldl_append ..
    rw [hrun, resolve_eq, hpolicy, map_append, map_singleton, windowAfter_append]
    exact (ih.step hpos error.ivCurrentEventTime).1

theorem ThresholdSigResolution.counted_of_run (hpos : 0 < policy.threshold.toNat)
    (sig : ErrorSignature) :
    Counted policy (windowAfter policy.threshold.toNat (byTimer policy.interval.toNat)
      (timesOf sig errors)) ((run policy errors).iv_thresholds sig) := by
  induction errors using List.reverseRecOn with
  | nil => exact counted_none policy _
  | append_singleton errors error ih =>
    have hpolicy := @run_policy policy errors
    have hrun : run policy (errors ++ [error]) = ((run policy errors).Resolve error).1 :=
      foldl_append ..
    rw [hrun, resolve_eq, hpolicy, timesOf_append]
    by_cases h : error.error_signature = sig
    · rw [if_pos h, windowAfter_append, h]
      dsimp only
      rw [Function.update_self]
      exact (ih.step hpos error.ivCurrentEventTime).1
    · rw [if_neg h, append_nil]
      dsimp only
      rw [Function.update_of_ne (Ne.symm h)]
      exact ih

/-- The service data of an occurrence, by the window that it belongs to. -/
theorem Counted.report {w : Option (Window Timer)} {state : UInt32 × Timer}
    (hpos : 0 < policy.threshold.toNat) (h : Counted policy w state) (maskId : UInt32)
    (error : ServiceDataCollector) :
    error.report policy.threshold maskId (occurrence policy state error.ivCurrentEventTime).2 =
      answer policy maskId
        (Window.next (byTimer policy.interval.toNat) error.ivCurrentEventTime 1 w) error := by
  rw [(h.step hpos error.ivCurrentEventTime).2]
  unfold ServiceDataCollector.report answer
  simp only [decide_eq_true_eq]

end

/-! ## Seconds -/

/-- Each occurrence comes while the timers can still tell how long ago its window
began. -/
def TimesInReach (threshold interval : Nat) : Option (Window Nat) → List Nat → Prop
  | _, [] => True
  | w, time :: times =>
    InReach interval w (.inc time 1) ∧
      TimesInReach threshold interval (windowStep threshold (bySeconds interval) w time) times

section
variable {threshold interval : Nat} {w : Option (Window Nat)} {times : List Nat} {time : Nat}

theorem timesInReach_append : TimesInReach threshold interval w (times ++ [time]) ↔
    TimesInReach threshold interval w times ∧
      InReach interval (times.foldl (windowStep threshold (bySeconds interval)) w)
        (.inc time 1) := by
  induction times generalizing w with
  | nil => exact and_comm
  | cons x times ih =>
    rw [cons_append, TimesInReach, TimesInReach, ih, and_assoc]
    rfl

theorem windowNext_atSeconds (hi : interval ≤ HALF_YEAR) (h : InReach interval w (.inc time 1)) :
    Window.next (byTimer interval) (Timer.ofSeconds time) 1 (w.map Window.atSeconds) =
      (Window.next (bySeconds interval) time 1 w).atSeconds :=
  Option.some.inj (window_call_atSeconds hi h)

theorem windowAfter_atSeconds (hi : interval ≤ HALF_YEAR)
    (h : TimesInReach threshold interval none times) :
    windowAfter threshold (byTimer interval) (times.map Timer.ofSeconds) =
      (windowAfter threshold (bySeconds interval) times).map Window.atSeconds := by
  induction times using List.reverseRecOn with
  | nil => rfl
  | append_singleton times time ih =>
    obtain ⟨hbefore, hlast⟩ := timesInReach_append.1 h
    have hnext := windowNext_atSeconds hi hlast
    rw [map_append, map_singleton, windowAfter_append, windowAfter_append, ih hbefore]
    unfold windowStep
    unfold windowAfter at *
    rw [hnext]
    generalize Window.next (bySeconds interval) time 1 _ = v
    exact (apply_ite (Option.map Window.atSeconds) (v.sum = threshold) none (some v)).symm

end

/-- What the resolutions answer.  An occurrence gets the hits of the window that it
belongs to, and the mask when it is the one that completes the threshold.  With signatures
the window is made of the occurrences of that signature; without them it is made of all
occurrences, and where these are of one signature the two windows are the same.  The
windows end as the timers compare, and that is by the seconds that have passed while the
interval has at most half a year and no half year has passed since the end. -/
theorem resolve_in_windows (policy : ThresholdPolicy) (hpos : 1 ≤ policy.threshold.toNat) :
    let threshold := policy.threshold.toNat
    let elapsed := byTimer policy.interval.toNat
    let passed := bySeconds policy.interval.toNat
    (∀ (errors : List ServiceDataCollector) (error : ServiceDataCollector) (maskId : UInt32),
      let window := fun times =>
        Window.next elapsed error.ivCurrentEventTime 1 (windowAfter threshold elapsed times)
      ((ThresholdSigResolution.run policy errors).Resolve error).2
          = answer policy error.error_signature.getSigId
            (window (timesOf error.error_signature errors)) error ∧
        ((ThresholdResolution.run maskId policy errors).Resolve error).2
          = answer policy maskId
            (window (errors.map ServiceDataCollector.ivCurrentEventTime)) error ∧
        ((∀ e ∈ errors, e.error_signature = error.error_signature) →
          timesOf error.error_signature errors
            = errors.map ServiceDataCollector.ivCurrentEventTime)) ∧
    ∀ (times : List Nat) (time : Nat), policy.interval.toNat ≤ HALF_YEAR →
      TimesInReach threshold policy.interval.toNat none (times ++ [time]) →
      Window.next elapsed (Timer.ofSeconds time) 1
          (windowAfter threshold elapsed (times.map Timer.ofSeconds))
        = (Window.next passed time 1 (windowAfter threshold passed times)).atSeconds := by
  intro threshold elapsed passed
  refine ⟨fun errors error maskId => ⟨?_, ?_, ?_⟩, fun times time hi hreach => ?_⟩
  · have hcounted := @ThresholdSigResolution.counted_of_run policy errors hpos error.error_signature
    rw [ThresholdSigResolution.resolve_eq, ThresholdSigResolution.run_policy]
    exact hcounted.report hpos _ error
  · have hcounted := @ThresholdResolution.counted_of_run policy errors maskId hpos
    obtain ⟨hpolicy, hmask⟩ := @ThresholdResolution.run_policy policy errors maskId
    rw [ThresholdResolution.resolve_eq, hpolicy, hmask]
    exact hcounted.report hpos _ error
  · intro hsame
    unfold timesOf
    rw [filter_eq_self.mpr fun e he => decide_eq_true (hsame e he)]
  · obtain ⟨hbefore, hlast⟩ := timesInReach_append.1 hreach
    rw [windowAfter_atSeconds hi hbefore]
    exact windowNext_atSeconds hi hlast

/-- An error at a time in seconds. -/
def errorAt (sig : ErrorSignature) (time : Nat) : ServiceDataCollector :=
  ⟨Timer.ofSeconds time, sig, 0, 0, 0, false, false, false⟩

/-- With the threshold 2 and a minute, the second of two errors within the minute gets the
mask. -/
theorem resolve_in_windows_minute :
    (((ThresholdSigResolution.run ⟨2, 60⟩ [errorAt ⟨1, 2, 3⟩ 100]).Resolve
      (errorAt ⟨1, 2, 3⟩ 120)).2).maskId = 0x20003 := by
  rw [((resolve_in_windows ⟨2, 60⟩ (by decide)).1 [errorAt ⟨1, 2, 3⟩ 100]
    (errorAt ⟨1, 2, 3⟩ 120) 0).1]
  decide

/-- The interval `NONE` of a threshold of two has an end after 70 days: the second of two
errors that are 81 days apart does not get the mask. -/
theorem none_has_an_end : ¬ ∀ (policy : ThresholdPolicy) (sig : ErrorSignature)
    (times : List Nat) (time : Nat), 1 ≤ policy.threshold.toNat →
      (times ++ [time]).Pairwise (· ≤ ·) →
      ((ThresholdSigResolution.run policy (times.map (errorAt sig))).Resolve
          (errorAt sig time)).2
        = answer policy sig.getSigId (Window.next (bySeconds policy.interval.toNat) time 1
            (windowAfter policy.threshold.toNat (bySeconds policy.interval.toNat) times))
          (errorAt sig time) := by
  intro h
  have hmask := h ⟨2, 0xffffffff⟩ ⟨1, 2, 3⟩ [0] 7000000 (by decide) (by decide)
  revert hmask
  decide

end Hostboot.Prdf.Threshold
