import Hostboot.TimeMgr.Core
import Hostboot.Util.LockedPQueue
import Mathlib.Data.List.Induction

/-!
# Tasks that sleep

`delayTask` and `checkReleaseTasks` of `src/kernel/timemgr.C`, on the delay list of one CPU.
A sleeping task is a node whose key is the time base at its end.  Each check takes nodes off
the list while they are due and gives their tasks to the scheduler.

The module puts the time base beside the list.  It stands still or goes forward between two
steps, and no task is given to the scheduler before its end or after one that ends later
(`Punctual`).  The affinity of a task, which chooses the queue of the scheduler, and the
doorbell are left out.
-/

namespace Hostboot.TimeMgr

open Hostboot.Lib Hostboot.Util.Locked List
open Function (update update_of_ne update_self)

/-! ## The functions of the source -/

/-- The states of a task that the timer writes. -/
inductive TaskState where
  | ready
  | blockSleep
  | other
  deriving DecidableEq, Repr

/-- The delay list of a CPU, the task of each node, and of each task its state and the
information on its state.  The last field holds the tasks given to the scheduler, the first
one first. -/
structure Timer where
  delayList : PQueue Nat
  task : Nat → Nat
  state : Nat → TaskState
  state_info : Nat → Nat
  added : List Nat

namespace Timer

/-- `Scheduler::addTask`. -/
def addTask (t : Timer) (task : Nat) : Timer :=
  { t with state := update t.state task .ready, added := t.added ++ [task] }

/-- `_delayTask` at the time base `tb`, where `new` gives the address `node`. -/
def delayTask (fuel tb : Nat) (t : Timer) (node task i_sec i_nsec : Nat) : Option Timer :=
  let key := (tb + convertSecToTicks i_sec i_nsec) % 2 ^ 64
  let list := { t.delayList with key := update t.delayList.key node key }
  (list.insert fuel node).map fun list =>
    { t with
      delayList := list
      task := update t.task node task
      state := update t.state task .blockSleep
      state_info := update t.state_info task key }

/-- `_checkReleaseTasks` at the time base `tb`, for a number of turns of its loop: the nodes
that it deletes, in their order, and what it leaves. -/
def checkReleaseTasks (tb : Nat) : Nat → Timer → Option (List Nat × Timer)
  | 0, _ => none
  | fuel + 1, t =>
    let (node, list) := t.delayList.removeIf tb
    let t := { t with delayList := list }
    if node = 0 then some ([], t)
    else (checkReleaseTasks tb fuel (t.addTask (t.task node))).map
      fun (nodes, t) => (node :: nodes, t)

end Timer

/-! ## One check -/

/-- A key that has come. -/
def due (tb key : Nat) : Bool := decide (key ≤ tb)

variable {t : Timer} {tb fuel : Nat} {l arrivals : List Nat}

/-- What a check does with the nodes of the list. -/
structure Released (tb : Nat) (t t' : Timer) (l nodes : List Nat) : Prop where
  taken : nodes = (l.filter fun n => due tb (t.delayList.key n)).reverse
  links : Links t'.delayList (l.filter fun n => !due tb (t.delayList.key n))
  key : t'.delayList.key = t.delayList.key
  task : t'.task = t.task
  added : t'.added = t.added ++ nodes.map t.task
  state : ∀ x, t'.state x = if x ∈ nodes.map t.task then .ready else t.state x
  state_info : t'.state_info = t.state_info

/-- The loop takes nodes off the tail, and stops at the first that is not due. -/
theorem checkReleaseTasks_spec (tb : Nat) (h : Links t.delayList l)
    (hsorted : l.Pairwise fun a b => t.delayList.key b ≤ t.delayList.key a)
    (hfuel : l.length < fuel) :
    ∃ nodes t', t.checkReleaseTasks tb fuel = some (nodes, t') ∧ Released tb t t' l nodes := by
  induction l using List.reverseRecOn generalizing t fuel with
  | nil =>
    obtain ⟨fuel, rfl⟩ := Nat.exists_eq_succ_of_ne_zero (Nat.ne_zero_of_lt hfuel)
    refine ⟨[], t, ?_, ⟨rfl, h, rfl, rfl, (append_nil _).symm, fun _ => rfl, rfl⟩⟩
    rw [Timer.checkReleaseTasks, removeIf_nil h]
    rfl
  | append_singleton l n ih =>
    obtain ⟨fuel, rfl⟩ := Nat.exists_eq_succ_of_ne_zero (Nat.ne_zero_of_lt hfuel)
    have hlen : l.length < fuel := by
      rw [length_append, length_singleton] at hfuel
      omega
    have hzero : n ≠ 0 := h.concat.2.2.2
    rw [Timer.checkReleaseTasks]
    rcases removeIf_spec h tb with ⟨hdue, list, hlist, hlinks, hkey⟩ | ⟨hlate, hlist⟩
    · obtain ⟨nodes, t', hcheck, hrel⟩ :=
        ih (t := Timer.addTask { t with delayList := list } (t.task n)) hlinks
          (by
            show l.Pairwise fun a b => list.key b ≤ list.key a
            rw [hkey]
            exact (pairwise_append.mp hsorted).1)
          hlen
      have hn : due tb (t.delayList.key n) = true := decide_eq_true hdue
      refine ⟨n :: nodes, t', ?_, ?_⟩
      · rw [hlist]
        dsimp only
        rw [if_neg hzero, hcheck]
        rfl
      · have hnodes := hrel.taken
        have hlinks' := hrel.links
        have hkey' : (Timer.addTask { t with delayList := list } (t.task n)).delayList.key =
            t.delayList.key := hkey
        rw [hkey'] at hnodes hlinks'
        refine ⟨?_, ?_, hrel.key.trans hkey, hrel.task, ?_, fun x => ?_, hrel.state_info⟩
        · have hlast : [n].filter (fun n => due tb (t.delayList.key n)) = [n] := by simp [hn]
          rw [filter_append, hlast, reverse_append, ← hnodes]
          rfl
        · have hlast : [n].filter (fun n => !due tb (t.delayList.key n)) = [] := by simp [hn]
          rw [filter_append, hlast, append_nil]
          exact hlinks'
        · rw [hrel.added, map_cons, append_cons]
          rfl
        · rw [hrel.state x]
          show (if x ∈ nodes.map t.task then _ else update t.state (t.task n) .ready x) = _
          by_cases hx : x = t.task n
          · simp [hx]
          · rw [update_of_ne hx]
            simp [hx]
    · -- no node has a lesser key than the tail
      have hall : ∀ m ∈ l ++ [n], due tb (t.delayList.key m) = false := by
        intro m hm
        refine decide_eq_false fun hle => hlate ?_
        rcases mem_append.mp hm with hl | hm
        · exact ((pairwise_append.mp hsorted).2.2 m hl n mem_cons_self).trans hle
        · exact mem_singleton.mp hm ▸ hle
      refine ⟨[], t, ?_, ⟨?_, ?_, rfl, rfl, (append_nil _).symm, fun _ => rfl, rfl⟩⟩
      · rw [hlist]
        rfl
      · rw [filter_eq_nil_iff.mpr fun m hm => by simp [hall m hm]]
        rfl
      · rw [filter_eq_self.mpr fun m hm => by simp [hall m hm]]
        exact h

/-- A check comes to its end.  It takes exactly the nodes that are due, the ones of a lesser
key first and those of one key in the order in which they came. -/
theorem checkReleaseTasks_good (tb : Nat) (h : Good t.delayList arrivals)
    (hfuel : arrivals.length < fuel) :
    ∃ nodes t', t.checkReleaseTasks tb fuel = some (nodes, t') ∧
      Ordered t.delayList.key nodes.reverse
        (arrivals.filter fun n => due tb (t.delayList.key n)) ∧
      Good t'.delayList (arrivals.filter fun n => !due tb (t.delayList.key n)) ∧
      t'.delayList.key = t.delayList.key ∧ t'.task = t.task ∧
      t'.added = t.added ++ nodes.map t.task ∧
      ∀ x, t'.state x = if x ∈ nodes.map t.task then .ready else t.state x := by
  obtain ⟨l, hlinks, hord⟩ := h
  obtain ⟨nodes, t', hcheck, hrel⟩ :=
    checkReleaseTasks_spec tb hlinks hord.sorted (hord.perm.length_eq ▸ hfuel)
  refine ⟨nodes, t', hcheck, ?_, ⟨_, hrel.links, ?_⟩, hrel.key, hrel.task, hrel.added, hrel.state⟩
  · rw [hrel.taken, reverse_reverse]
    exact hord.filter (due tb)
  · exact (hord.filter fun k => !due tb k).congr fun a _ => congrFun hrel.key a

/-! ## Runs -/

/-- A call of `delayTask`. -/
structure Delay where
  task : Nat
  start : Nat
  sec : Nat
  nsec : Nat
  deriving DecidableEq, Repr

/-- The time base at its end. -/
def Delay.ends (d : Delay) : Nat := d.start + ticks d.sec d.nsec

/-- The product of the conversion and the end fit into 64 bits.  The comment of the source
promises it for less than a year. -/
def Delay.InRange (d : Delay) : Prop :=
  (d.sec * 1000000000 + d.nsec) * 512 < 2 ^ 64 ∧ d.ends < 2 ^ 64

/-- The timer of a CPU and its time base.  The last three fields are not in the source: the
nodes of the list, the newest first, the call that made each of them, and the calls whose
tasks were given to the scheduler, with the time base of the check that did it. -/
structure Sys where
  timer : Timer
  tb : Nat
  arrivals : List Nat
  delays : Nat → Delay
  released : List (Delay × Nat)

/-- The start. -/
def Sys.init (key task : Nat → Nat) (state : Nat → TaskState) (state_info : Nat → Nat) (tb : Nat)
    (delays : Nat → Delay) : Sys :=
  ⟨⟨PQueue.new key, task, state, state_info, []⟩, tb, [], delays, []⟩

/-- Time passes, a task asks for a delay, or the kernel checks the list. -/
inductive Act where
  | tick (passed : Nat)
  | delay (node task sec nsec : Nat)
  | check
  deriving DecidableEq, Repr

/-- A step of the system.  `new` gives an address that no node of the list has. -/
inductive TimerStep : Sys → Act → Sys → Prop
  | tick {s : Sys} {passed : Nat} (hlt : s.tb + passed < 2 ^ 64) :
      TimerStep s (.tick passed) { s with tb := s.tb + passed }
  | delay {s : Sys} {node task sec nsec fuel : Nat} {timer : Timer} (hzero : node ≠ 0)
      (hnode : node ∉ s.arrivals)
      (hdelay : s.timer.delayTask fuel s.tb node task sec nsec = some timer) :
      TimerStep s (.delay node task sec nsec)
        { s with
          timer := timer
          arrivals := node :: s.arrivals
          delays := update s.delays node ⟨task, s.tb, sec, nsec⟩ }
  | check {s : Sys} {fuel : Nat} {nodes : List Nat} {timer : Timer}
      (hcheck : s.timer.checkReleaseTasks s.tb fuel = some (nodes, timer)) :
      TimerStep s .check
        { s with
          timer := timer
          arrivals := s.arrivals.filter fun n => n ∉ nodes
          released := s.released ++ nodes.map fun n => (s.delays n, s.tb) }

/-- The steps whose delays are in range. -/
def RangedStep (s : Sys) (a : Act) (s' : Sys) : Prop :=
  TimerStep s a s' ∧
    ∀ node task sec nsec, a = .delay node task sec nsec → Delay.InRange ⟨task, s.tb, sec, nsec⟩

/-- The list is in order, each task was given to the scheduler at its end or later, and in
the order in which the delays end. -/
structure Punctual (s : Sys) : Prop where
  good : Good s.timer.delayList s.arrivals
  none_early : ∀ r ∈ s.released, r.1.ends ≤ r.2
  sorted : s.released.Pairwise fun r r' => r.1.ends ≤ r'.1.ends
  added : s.timer.added = s.released.map fun r => r.1.task

/-- What holds besides: the nodes carry what the calls asked for, and no node on the list
ends before a task that has been given away, which is past. -/
structure Waiting (s : Sys) : Prop extends Punctual s where
  key : ∀ n ∈ s.arrivals, s.timer.delayList.key n = (s.delays n).ends
  task : ∀ n ∈ s.arrivals, s.timer.task n = (s.delays n).task
  later : ∀ r ∈ s.released, ∀ n ∈ s.arrivals, r.1.ends ≤ (s.delays n).ends
  past : ∀ r ∈ s.released, r.2 ≤ s.tb

variable {s s' : Sys}

theorem Waiting.tick {passed : Nat} (h : Waiting s) :
    Waiting { s with tb := s.tb + passed } :=
  { h with past := fun r hr => (h.past r hr).trans (Nat.le_add_right _ _) }

theorem Waiting.delay {node task sec nsec fuel : Nat} {timer : Timer} (h : Waiting s)
    (hzero : node ≠ 0) (hnode : node ∉ s.arrivals)
    (hdelay : s.timer.delayTask fuel s.tb node task sec nsec = some timer)
    (hrange : Delay.InRange ⟨task, s.tb, sec, nsec⟩) :
    Waiting { s with
      timer := timer
      arrivals := node :: s.arrivals
      delays := update s.delays node ⟨task, s.tb, sec, nsec⟩ } := by
  have hkey : (s.tb + convertSecToTicks sec nsec) % 2 ^ 64 = s.tb + ticks sec nsec := by
    rw [convertSecToTicks_of_lt hrange.1]
    exact Nat.mod_eq_of_lt hrange.2
  unfold Timer.delayTask at hdelay
  dsimp only at hdelay
  rw [hkey] at hdelay
  obtain ⟨list, hlist, rfl⟩ := Option.map_eq_some_iff.mp hdelay
  obtain ⟨hgood, hkeys⟩ :=
    insert_good (h.good.setKey hnode (s.tb + ticks sec nsec)) hzero hnode hlist
  have hold : ∀ n ∈ s.arrivals, n ≠ node := fun n hn heq => hnode (heq ▸ hn)
  refine ⟨⟨hgood, h.none_early, h.sorted, h.added⟩, fun n hn => ?_, fun n hn => ?_,
    fun r hr n hn => ?_, h.past⟩
  · show list.key n = _
    rw [hkeys]
    dsimp only
    rcases mem_cons.mp hn with rfl | hn
    · rw [update_self, update_self]
      rfl
    · rw [update_of_ne (hold n hn), update_of_ne (hold n hn)]
      exact h.key n hn
  · dsimp only
    rcases mem_cons.mp hn with rfl | hn
    · rw [update_self, update_self]
    · rw [update_of_ne (hold n hn), update_of_ne (hold n hn)]
      exact h.task n hn
  · dsimp only
    rcases mem_cons.mp hn with rfl | hn
    · rw [update_self]
      exact ((h.none_early r hr).trans (h.past r hr)).trans (Nat.le_add_right _ _)
    · rw [update_of_ne (hold n hn)]
      exact h.later r hr n hn

theorem checkReleaseTasks_mono {fuel fuel' : Nat} {r : List Nat × Timer} (hle : fuel ≤ fuel')
    (h : t.checkReleaseTasks tb fuel = some r) : t.checkReleaseTasks tb fuel' = some r := by
  induction fuel generalizing t fuel' r with
  | zero => exact absurd h (by simp [Timer.checkReleaseTasks])
  | succ fuel ih =>
    obtain ⟨fuel', rfl⟩ := Nat.exists_eq_succ_of_ne_zero (Nat.ne_zero_of_lt hle)
    rw [Timer.checkReleaseTasks] at h ⊢
    dsimp only at h ⊢
    split_ifs at h ⊢
    · exact h
    · obtain ⟨r', hr', rfl⟩ := Option.map_eq_some_iff.mp h
      rw [ih (Nat.le_of_succ_le_succ hle) hr']
      rfl

theorem Waiting.check {fuel : Nat} {nodes : List Nat} {timer : Timer} (h : Waiting s)
    (hcheck : s.timer.checkReleaseTasks s.tb fuel = some (nodes, timer)) :
    Waiting { s with
      timer := timer
      arrivals := s.arrivals.filter fun n => n ∉ nodes
      released := s.released ++ nodes.map fun n => (s.delays n, s.tb) } := by
  obtain ⟨nodes', timer', hcheck', hord, hgood, hkey, htask, hadded, -⟩ :=
    checkReleaseTasks_good s.tb h.good
      (show s.arrivals.length < fuel + s.arrivals.length + 1 by omega)
  have hmore := checkReleaseTasks_mono (show fuel ≤ fuel + s.arrivals.length + 1 by omega) hcheck
  obtain ⟨rfl, rfl⟩ := Prod.mk.inj (Option.some.inj (hmore.symm.trans hcheck'))
  have hmem : ∀ n, n ∈ nodes ↔ n ∈ s.arrivals ∧ s.timer.delayList.key n ≤ s.tb := by
    intro n
    rw [← mem_reverse, hord.perm.mem_iff, mem_filter, due, decide_eq_true_iff]
  have hrest : (s.arrivals.filter fun n => n ∉ nodes) =
      s.arrivals.filter fun n => !due s.tb (s.timer.delayList.key n) := by
    refine filter_congr fun n hn => ?_
    rw [due, ← decide_not]
    exact decide_eq_decide.mpr (not_congr ((hmem n).trans (and_iff_right hn)))
  have hstay : ∀ n ∈ s.arrivals.filter (fun n => n ∉ nodes),
      n ∈ s.arrivals ∧ s.tb < s.timer.delayList.key n := by
    intro n hn
    rw [hrest, mem_filter] at hn
    exact ⟨hn.1, by simpa [due] using hn.2⟩
  have hends : ∀ n ∈ nodes, s.timer.delayList.key n = (s.delays n).ends :=
    fun n hn => h.key n ((hmem n).mp hn).1
  refine ⟨⟨?_, fun r hr => ?_, ?_, ?_⟩, fun n hn => ?_, fun n hn => ?_, fun r hr n hn => ?_,
    fun r hr => ?_⟩
  · dsimp only
    rw [hrest]
    exact hgood
  · rcases mem_append.mp hr with hr | hr
    · exact h.none_early r hr
    · obtain ⟨n, hn, rfl⟩ := mem_map.mp hr
      rw [← hends n hn]
      exact ((hmem n).mp hn).2
  · refine pairwise_append.mpr ⟨h.sorted, pairwise_map.mpr ?_, fun r hr r' hr' => ?_⟩
    · have hpair := pairwise_reverse.mp hord.sorted
      refine hpair.imp_of_mem fun {a b} ha hb hab => ?_
      rw [← hends a ha, ← hends b hb]
      exact hab
    · obtain ⟨n, hn, rfl⟩ := mem_map.mp hr'
      exact h.later r hr n ((hmem n).mp hn).1
  · dsimp only
    rw [hadded, h.added, map_append, map_map]
    refine congrArg _ (map_congr_left fun n hn => ?_)
    exact h.task n ((hmem n).mp hn).1
  · dsimp only at hn ⊢
    rw [hkey]
    exact h.key n (hstay n hn).1
  · dsimp only at hn ⊢
    rw [htask]
    exact h.task n (hstay n hn).1
  · have hin := hstay n hn
    rcases mem_append.mp hr with hr | hr
    · exact h.later r hr n hin.1
    · -- what is taken is due, and what stays is not
      obtain ⟨m, hm, rfl⟩ := mem_map.mp hr
      dsimp only
      rw [← h.key n hin.1, ← hends m hm]
      exact ((hmem m).mp hm).2.trans hin.2.le
  · rcases mem_append.mp hr with hr | hr
    · exact h.past r hr
    · obtain ⟨n, -, rfl⟩ := mem_map.mp hr
      exact Nat.le_refl s.tb

theorem RangedStep.waiting {a : Act} (h : RangedStep s a s') (hwait : Waiting s) :
    Waiting s' := by
  obtain ⟨hstep, hrange⟩ := h
  cases hstep with
  | tick hlt => exact hwait.tick
  | delay hzero hnode hdelay =>
    exact hwait.delay hzero hnode hdelay (hrange _ _ _ _ rfl)
  | check hcheck => exact hwait.check hcheck

theorem punctual_of_run {key task state_info : Nat → Nat} {state : Nat → TaskState} {tb : Nat}
    {delays : Nat → Delay} {acts : List Act}
    (hrun : Run RangedStep (Sys.init key task state state_info tb delays) acts s) :
    Punctual s := by
  have hinit : Waiting (Sys.init key task state state_info tb delays) := by
    refine ⟨⟨good_new key, ?_, .nil, rfl⟩, ?_, ?_, ?_, ?_⟩ <;> simp [Sys.init]
  have hwait := hrun.invariant hinit fun _ _ _ hwait hstep => RangedStep.waiting hstep hwait
  exact hwait.toPunctual

/-! ## The queue and the timer -/

/-- In runs that call `remove` only on a queue of at most one element a queue stays in order,
`insert` comes to its end, and `remove_if` takes the element that came first among those of
the least key, exactly when that key is at most the limit.  A `remove` on more elements breaks
the links.  The timer calls no `remove`.  It gives tasks to the scheduler in the order in
which their delays end, and none early, and each check takes all that are due. -/
theorem queue_and_timer_in_order {κ : Type*} [LinearOrder κ] {key : Nat → κ} {ops : List (Op κ)}
    {q : Queued κ} (hrun : Run SafeStep ⟨PQueue.new key, []⟩ ops q)
    {expiry task state_info : Nat → Nat} {state : Nat → TaskState} {tb : Nat}
    {delays : Nat → Delay} {acts : List Act}
    (hacts : Run RangedStep (Sys.init expiry task state state_info tb delays) acts s) :
    (Good q.queue q.arrivals ∧
      (∀ item k fuel, item ≠ 0 → item ∉ q.arrivals → q.arrivals.length < fuel →
        ∃ q', PQueue.insert fuel { q.queue with key := update q.queue.key item k } item =
          some q') ∧
      (∀ limit n, n ≠ 0 → ((q.queue.removeIf limit).1 = n ↔
        First q.queue.key n q.arrivals ∧ q.queue.key n ≤ limit)) ∧
      (Good q.queue.remove.2 (q.arrivals.erase q.queue.remove.1) ↔ q.arrivals.length ≤ 1)) ∧
    Punctual s ∧
      ∀ fuel, s.arrivals.length < fuel → ∃ nodes timer,
        s.timer.checkReleaseTasks s.tb fuel = some (nodes, timer) ∧
        Ordered s.timer.delayList.key nodes.reverse
          (s.arrivals.filter fun n => due s.tb (s.timer.delayList.key n)) ∧
        Good timer.delayList
          (s.arrivals.filter fun n => !due s.tb (s.timer.delayList.key n)) := by
  have hgood := good_of_run hrun
  have hpunctual := punctual_of_run hacts
  refine ⟨⟨hgood, fun item k fuel hzero hitem hfuel => ?_, fun limit n hn =>
    hgood.removeIf_eq_iff limit hn, hgood.remove_iff⟩, hpunctual, fun fuel hfuel => ?_⟩
  · obtain ⟨q', hq', -⟩ := (hgood.setKey hitem k).insert hzero hitem hfuel
    exact ⟨q', hq'⟩
  · obtain ⟨nodes, timer, hcheck, hord, hrest, -⟩ := checkReleaseTasks_good s.tb hpunctual.good hfuel
    exact ⟨nodes, timer, hcheck, hord, hrest⟩

/-- Two elements, of which `remove_if` takes the first and `remove` the second, and a task that
sleeps a microsecond. -/
theorem queue_and_timer_in_order_two :
    ∃ (q : Queued Nat) (s : Sys), q.arrivals = [] ∧ Good q.queue q.arrivals ∧ Punctual s ∧
      s.released = [(⟨7, 40, 0, 1000⟩, 600)] := by
  obtain ⟨q, hrun, hnone⟩ : ∃ q, Run SafeStep ⟨PQueue.new fun _ => 0, []⟩
      [.insert 1 5, .insert 2 5, .removeIf 5, .remove] q ∧ q.arrivals = [] := by
    refine ⟨_, .snoc (.snoc (.snoc (.snoc .nil ⟨@Step.insert _ _ _ 1 5 1 _ ?_ ?_ rfl, ?_⟩)
      ⟨@Step.insert _ _ _ 2 5 2 _ ?_ ?_ rfl, ?_⟩) ⟨.removeIf, ?_⟩) ⟨.remove, fun _ => ?_⟩, ?_⟩
    all_goals first | decide | simp
  obtain ⟨s, hacts, hreleased⟩ : ∃ s, Run RangedStep
      (Sys.init (fun _ => 0) (fun _ => 0) (fun _ => .other) (fun _ => 0) 40 fun _ => ⟨0, 0, 0, 0⟩)
      [.delay 1 7 0 1000, .tick 560, .check] s ∧ s.released = [(⟨7, 40, 0, 1000⟩, 600)] := by
    refine ⟨_, .snoc (.snoc (.snoc .nil ⟨@TimerStep.delay _ 1 7 0 1000 1 _ ?_ ?_ rfl, ?_⟩)
      ⟨.tick ?_, by simp⟩) ⟨@TimerStep.check _ 2 _ _ rfl, by simp⟩, rfl⟩
    · decide
    · decide
    · rintro _ _ _ _ ⟨⟩
      exact ⟨by decide, by decide⟩
    · decide
  have hboth := queue_and_timer_in_order hrun hacts
  exact ⟨q, s, hnone, hboth.1.1, hboth.2.1, hreleased⟩

/-- A node that `remove` has taken is given out again: it takes 1 of 1 and 2, and behind an
`insert` of 3 the node 1 is at the tail. -/
theorem removed_then_given_out :
    ∃ q : Queued Nat, Run Step ⟨PQueue.new fun _ => 0, []⟩
        [.insert 1 5, .insert 2 7, .remove, .insert 3 0, .removeIf 100] q ∧
      q.arrivals = [2] ∧ (q.queue.removeIf 100).1 = 1 := by
  refine ⟨_, .snoc (.snoc (.snoc (.snoc (.snoc .nil (@Step.insert _ _ _ 1 5 1 _ ?_ ?_ rfl))
    (@Step.insert _ _ _ 2 7 2 _ ?_ ?_ rfl)) .remove) (@Step.insert _ _ _ 3 0 4 _ ?_ ?_ rfl))
    .removeIf, ?_, ?_⟩
  all_goals decide

end Hostboot.TimeMgr
