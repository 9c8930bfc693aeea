import Mathlib
import Hostboot.Lib.Atomic
import Hostboot.Lib.Run
import Hostboot.Util.Containers

/-!
# The lock-free stack

`Stack` of `src/include/util/lockfree/stack.H` keeps its elements in a linked
list and changes the head with a compare-and-swap.  A word of the stack is an
`AbaPtr` (`abaptr.H`): a pointer in the low 32 bits and a count in the high
32 bits, which grows by one with every change of the head.  A `pop` reads the
`next` member of an element that another task may have popped and pushed again
in the meantime.  Only the count then tells that the head has changed.

A step is one access to shared memory.  The clients own an element until they
push it, get it back from a `pop`, and write what they like into the elements
they own.  The fields `owned`, `updates`, `called` and `since` are not in the
source: they record who owns an element, how often the head has changed, and
when the operation of a task was called and last read the head.
-/

namespace Hostboot.Util.Lockfree

open Hostboot.Lib Hostboot.Lib.Atomic List
open Function (update update_of_ne update_self)

/-! ## `AbaPtr` -/

/-- `AbaPtr::_getCounter`. -/
def getCounter (ptr : Nat) : Nat := (ptr >>> 32) % 2 ^ 32

structure AbaPtr where
  original : Nat
  ptr : Nat
  counter : Nat
  deriving DecidableEq, Repr

namespace AbaPtr

/-- The constructor from a pointer value. -/
def ofPtr (i_ptr : Nat) : AbaPtr := ⟨i_ptr, getPtr i_ptr, getCounter i_ptr⟩

def set (a : AbaPtr) (i_ptr : Nat) : AbaPtr :=
  { a with ptr := getPtr i_ptr, counter := (a.counter + 1) % 2 ^ 32 }

def setCount (a : AbaPtr) (count : Nat) : AbaPtr := { a with counter := count }

/-- `AbaPtr::_getVal`. -/
def getVal (a : AbaPtr) : Nat := (a.counter <<< 32) ||| a.ptr

end AbaPtr

/-- `Stack::TOKEN`. -/
def TOKEN : Nat := 0x5354414B

/-- The word `pop` and `push` put into the head: the pointer `p`, and the count
of the word `h` and one. -/
def headWord (h p : Nat) : Nat := ((AbaPtr.ofPtr h).set p).getVal

/-- The word `push` puts into `next`: the pointer of the head `h` and the
token.  `x` is the old word. -/
def nextWord (h x : Nat) : Nat :=
  (((AbaPtr.ofPtr x).set (AbaPtr.ofPtr h).ptr).setCount TOKEN).getVal

theorem getVal_eq (a : AbaPtr) (hp : a.ptr < 2 ^ 32) :
    a.getVal = a.counter * 2 ^ 32 + a.ptr := by
  unfold AbaPtr.getVal
  rw [← Nat.shiftLeft_add_eq_or_of_lt hp, Nat.shiftLeft_eq]

theorem getPtr_getVal (a : AbaPtr) (hp : a.ptr < 2 ^ 32) : getPtr a.getVal = a.ptr := by
  rw [getVal_eq a hp, getPtr]
  omega

theorem getCounter_getVal (a : AbaPtr) (hp : a.ptr < 2 ^ 32) (hc : a.counter < 2 ^ 32) :
    getCounter a.getVal = a.counter := by
  rw [getVal_eq a hp, getCounter, Nat.shiftRight_eq_div_pow]
  omega

theorem getPtr_lt (w : Nat) : getPtr w < 2 ^ 32 := Nat.mod_lt _ (by decide)

theorem getPtr_getPtr (w : Nat) : getPtr (getPtr w) = getPtr w := getPtr_of_lt (getPtr_lt w)

@[simp] theorem getPtr_headWord (h p : Nat) : getPtr (headWord h p) = getPtr p :=
  getPtr_getVal _ (getPtr_lt p)

@[simp] theorem getCounter_headWord (h p : Nat) :
    getCounter (headWord h p) = (getCounter h + 1) % 2 ^ 32 :=
  getCounter_getVal _ (getPtr_lt p) (Nat.mod_lt _ (by decide))

@[simp] theorem getPtr_nextWord (h x : Nat) : getPtr (nextWord h x) = getPtr h := by
  have hptr : getPtr (AbaPtr.ofPtr h).ptr = getPtr h := getPtr_getPtr h
  rw [← hptr]
  exact getPtr_getVal _ (getPtr_lt _)

@[simp] theorem getCounter_nextWord (h x : Nat) : getCounter (nextWord h x) = TOKEN :=
  getCounter_getVal _ (getPtr_lt _) (by show TOKEN < _; decide)

/-! ## The steps -/

/-- The operations. -/
inductive StackOp where
  | push (p : Nat)
  | pop
  deriving DecidableEq, Repr

/-- What the operations return; `pop` returns null on an empty stack. -/
inductive Result where
  | pushed
  | popped (p : Option Nat)
  deriving DecidableEq, Repr

/-- A stack on its own. -/
def stackSpec : Spec (List Nat) StackOp Result where
  init := []
  apply
    | l, .push p => (p :: l, .pushed)
    | [], .pop => ([], .popped none)
    | p :: l, .pop => (l, .popped (some p))

/-- What a task does.  `h` is the word it read from the head and `x` the word
it read from a `next` member. -/
inductive Phase where
  | idle
  /-- `push`, before it reads the head. -/
  | pushing (p : Nat)
  | pushHead (p h : Nat)
  /-- `push`, before the swap of `p->next`. -/
  | pushNext (p h x : Nat)
  /-- `push`, before the swap of the head. -/
  | pushLinked (p h : Nat)
  /-- `pop`, before it reads the head. -/
  | popping
  | popHead (h : Nat)
  /-- `pop`, before the swap of the head. -/
  | popNext (h x : Nat)
  /-- Before the return. -/
  | done (r : Result)
  /-- A `crit_assert` has failed. -/
  | failed
  deriving DecidableEq, Repr

/-- The element that the operation of a task has for itself. -/
def Phase.held : Phase → Option Nat
  | pushing p | pushHead p _ | pushNext p _ _ | pushLinked p _ | done (.popped (some p)) => some p
  | _ => none

/-- The stack, the `next` members and the tasks. -/
structure State where
  head : Nat
  next : Nat → Nat
  phase : Nat → Phase
  /-- The clients own the element. -/
  owned : Nat → Bool
  /-- How often the head has changed. -/
  updates : Nat
  /-- The changes at the call of the operation. -/
  called : Nat → Nat
  /-- The changes at the last read of the head. -/
  since : Nat → Nat

namespace State

/-- An empty stack; the clients own everything. -/
def init (next : Nat → Nat) : State where
  head := 0
  next := next
  phase := fun _ => .idle
  owned := fun _ => true
  updates := 0
  called := fun _ => 0
  since := fun _ => 0

def setPhase (s : State) (t : Nat) (p : Phase) : State :=
  { s with phase := update s.phase t p }

def setOwned (s : State) (p : Nat) (b : Bool) : State :=
  { s with owned := update s.owned p b }

def setNext (s : State) (p w : Nat) : State :=
  { s with next := update s.next p w }

/-- The call of an operation. -/
def call (s : State) (t : Nat) (p : Phase) : State :=
  { s.setPhase t p with called := update s.called t s.updates }

/-- The read of the head. -/
def readHead (s : State) (t : Nat) (p : Phase) : State :=
  { s.setPhase t p with since := update s.since t s.updates }

/-- The swap of `p->next` in `push`. -/
def swapNext (s : State) (t p h x : Nat) : State :=
  if s.next p = x then (s.setNext p (nextWord h x)).setPhase t (.pushLinked p h)
  else s.setPhase t .failed

/-- A swap of the head that succeeds. -/
def setHead (s : State) (w : Nat) : State := { s with head := w, updates := s.updates + 1 }

/-- The swap of the head in `push`. -/
def swapPush (s : State) (t p h : Nat) : State :=
  if s.head = h then (s.setHead (headWord h p)).setPhase t (.done .pushed)
  else s.setPhase t (.pushing p)

/-- The swap of the head in `pop`, with the check of the token. -/
def swapPop (s : State) (t h x : Nat) : State :=
  if s.head = h then
    (s.setHead (headWord h (getPtr x))).setPhase t
      (if getCounter x = TOKEN then .done (.popped (some (getPtr h))) else .failed)
  else s.setPhase t .popping

/-- The return of an operation.  The client owns the popped element. -/
def answer (s : State) (t : Nat) (r : Result) : State :=
  match r with
  | .popped (some p) => (s.setOwned p true).setPhase t .idle
  | _ => s.setPhase t .idle

end State

/-- The labels of the steps. -/
inductive Op where
  | callPush (t p : Nat)
  | callPop (t : Nat)
  | readHead (t : Nat)
  | readNext (t : Nat)
  | swapNext (t : Nat)
  | swapHead (t : Nat)
  | answer (t : Nat) (r : Result)
  /-- A client writes into an element it owns. -/
  | write (p w : Nat)
  deriving DecidableEq, Repr

/-- One step. -/
inductive Step (s : State) : Op → State → Prop
  | callPush {t p : Nat} (ht : s.phase t = .idle) (hp : s.owned p = true) (hpos : 0 < p)
      (hlt : p < 2 ^ 32) :
      Step s (.callPush t p) ((s.setOwned p false).call t (.pushing p))
  | callPop {t : Nat} (ht : s.phase t = .idle) : Step s (.callPop t) (s.call t .popping)
  | pushHead {t p : Nat} (ht : s.phase t = .pushing p) :
      Step s (.readHead t) (s.readHead t (.pushHead p s.head))
  | popHead {t : Nat} (ht : s.phase t = .popping) :
      Step s (.readHead t) (s.readHead t
        (if getPtr s.head = 0 then .done (.popped none) else .popHead s.head))
  | pushNext {t p h : Nat} (ht : s.phase t = .pushHead p h) :
      Step s (.readNext t) (s.setPhase t (.pushNext p h (s.next p)))
  | popNext {t h : Nat} (ht : s.phase t = .popHead h) :
      Step s (.readNext t) (s.setPhase t (.popNext h (s.next (getPtr h))))
  | swapNext {t p h x : Nat} (ht : s.phase t = .pushNext p h x) :
      Step s (.swapNext t) (s.swapNext t p h x)
  | swapPush {t p h : Nat} (ht : s.phase t = .pushLinked p h) :
      Step s (.swapHead t) (s.swapPush t p h)
  | swapPop {t h x : Nat} (ht : s.phase t = .popNext h x) :
      Step s (.swapHead t) (s.swapPop t h x)
  | answer {t : Nat} {r : Result} (ht : s.phase t = .done r) :
      Step s (.answer t r) (s.answer t r)
  | write {p w : Nat} (hp : s.owned p = true) : Step s (.write p w) (s.setNext p w)

/-- Fewer than `2 ^ 32` changes of the head fall into each pending operation. -/
def Short (s : State) : Prop :=
  ∀ t, s.phase t ≠ .idle → s.updates < s.called t + 2 ^ 32

/-- A step while all pending operations are short. -/
def ShortStep (s : State) (op : Op) (s' : State) : Prop := Short s ∧ Step s op s'

/-- What the clients see of a step. -/
def Op.event : Op → Option (Event Nat StackOp Result)
  | .callPush t p => some (.invoke t (.push p))
  | .callPop t => some (.invoke t .pop)
  | .answer t r => some (.respond t r)
  | _ => none

/-- What the clients see of a run. -/
def history (ops : List Op) : List (Event Nat StackOp Result) := ops.filterMap Op.event

/-- How often an element was pushed. -/
def pushes (p : Nat) (ops : List Op) : Nat :=
  ops.countP fun op => match op with
    | .callPush _ q => q = p
    | _ => false

/-- How often an element was returned. -/
def pops (p : Nat) (ops : List Op) : Nat :=
  ops.countP fun op => match op with
    | .answer _ (.popped (some q)) => q = p
    | _ => false

/-! ## The invariant -/

/-- The elements of the list that begins at an address, each with the token. -/
def Chain (next : Nat → Nat) : Nat → List Nat → Prop
  | a, [] => a = 0
  | a, p :: l => a = p ∧ p ≠ 0 ∧ getCounter (next p) = TOKEN ∧ Chain next (getPtr (next p)) l

/-- The word that task `t` read from the head. -/
structure ReadOk (s : State) (t h : Nat) : Prop where
  count : getCounter h = s.since t % 2 ^ 32
  called : s.called t ≤ s.since t
  since : s.since t ≤ s.updates
  same : s.since t = s.updates → h = s.head

/-- The task is as far as the atomic object says, and what it read is right
while the head does not change. -/
def PhaseOk (s : State) (t : Nat) (status : Status StackOp Result) : Phase → Prop
  | .idle => status = .idle
  | .pushing p => status = .called (.push p) ∧ s.called t ≤ s.updates
  | .pushHead p h => status = .called (.push p) ∧ ReadOk s t h
  | .pushNext p h x => status = .called (.push p) ∧ ReadOk s t h ∧ x = s.next p
  | .pushLinked p h => status = .called (.push p) ∧ ReadOk s t h ∧
      getPtr (s.next p) = getPtr h ∧ getCounter (s.next p) = TOKEN
  | .popping => status = .called .pop ∧ s.called t ≤ s.updates
  | .popHead h => status = .called .pop ∧ ReadOk s t h ∧ getPtr h ≠ 0
  | .popNext h x => status = .called .pop ∧ ReadOk s t h ∧ getPtr h ≠ 0 ∧
      (s.since t = s.updates → x = s.next (getPtr h))
  | .done r => ∃ o, status = .took o r
  | .failed => False

/-- The invariant, for the elements `l` of the stack and the status of the
callers. -/
structure StackOk (s : State) (l : List Nat) (status : Nat → Status StackOp Result) : Prop where
  chain : Chain s.next (getPtr s.head) l
  nodup : l.Nodup
  count : getCounter s.head = s.updates % 2 ^ 32
  inside : ∀ p ∈ l, s.owned p = false
  held : ∀ t p, (s.phase t).held = some p → s.owned p = false ∧ p ∉ l ∧ 0 < p ∧ p < 2 ^ 32
  unique : ∀ t t' p, (s.phase t).held = some p → (s.phase t').held = some p → t = t'
  /-- An element that no client owns is in the stack or in an operation. -/
  kept : ∀ p, s.owned p = false → p ∈ l ∨ ∃ t, (s.phase t).held = some p
  phase : ∀ t, PhaseOk s t (status t) (s.phase t)

section Chain

variable {next next' : Nat → Nat} {a : Nat} {l : List Nat}

theorem Chain.congr (h : Chain next a l) (heq : ∀ p ∈ l, next' p = next p) :
    Chain next' a l := by
  induction l generalizing a with
  | nil => exact h
  | cons p l ih =>
    obtain ⟨ha, hne, htoken, hrest⟩ := h
    have hp : next' p = next p := heq p mem_cons_self
    unfold Chain
    rw [hp]
    exact ⟨ha, hne, htoken, ih hrest fun q hq => heq q (mem_cons_of_mem _ hq)⟩

theorem Chain.eq_nil (h : Chain next 0 l) : l = [] := by
  cases l with
  | nil => rfl
  | cons p l => exact absurd h.1.symm h.2.1

theorem Chain.eq_cons (h : Chain next a l) (ha : a ≠ 0) :
    ∃ rest, l = a :: rest ∧ getCounter (next a) = TOKEN ∧ Chain next (getPtr (next a)) rest := by
  cases l with
  | nil => exact absurd h ha
  | cons p l =>
    obtain ⟨rfl, -, htoken, hrest⟩ := h
    exact ⟨l, rfl, htoken, hrest⟩

end Chain

section Invariant

variable {s s' : State} {l : List Nat} {status status' : Nat → Status StackOp Result}
  {t : Nat} {p : Phase}

/-- A task that has read the head since its last change has the word of the
head.  The count is compared modulo `2 ^ 32`, which is enough for a short
operation. -/
theorem ReadOk.since_eq {h : Nat} (hread : ReadOk s t h) (hstack : StackOk s l status)
    (hshort : s.updates < s.called t + 2 ^ 32) (heq : s.head = h) : s.since t = s.updates := by
  have hcount := hread.count
  have hcalled := hread.called
  have hsince := hread.since
  have hhead := hstack.count
  rw [heq] at hhead
  omega

/-- What a task relies on stays right while nobody changes the head or an
element that the task holds. -/
theorem PhaseOk.frame {st : Status StackOp Result} (h : PhaseOk s t st p)
    (hhead : s'.head = s.head) (hup : s'.updates = s.updates)
    (hcalled : s'.called t = s.called t) (hsince : s'.since t = s.since t)
    (hheld : ∀ q, p.held = some q → s'.next q = s.next q)
    (htop : getPtr s.head ≠ 0 → s'.next (getPtr s.head) = s.next (getPtr s.head)) :
    PhaseOk s' t st p := by
  have hread : ∀ w, ReadOk s t w → ReadOk s' t w := by
    intro w hw
    constructor
    · rw [hsince]
      exact hw.count
    · rw [hsince, hcalled]
      exact hw.called
    · rw [hsince, hup]
      exact hw.since
    · rw [hsince, hup, hhead]
      exact hw.same
  cases p with
  | idle => exact h
  | pushing q =>
    unfold PhaseOk
    rw [hcalled, hup]
    exact h
  | pushHead q w => exact ⟨h.1, hread w h.2⟩
  | pushNext q w x =>
    refine ⟨h.1, hread w h.2.1, ?_⟩
    rw [hheld q rfl]
    exact h.2.2
  | pushLinked q w =>
    refine ⟨h.1, hread w h.2.1, ?_⟩
    rw [hheld q rfl]
    exact h.2.2
  | popping =>
    unfold PhaseOk
    rw [hcalled, hup]
    exact h
  | popHead w => exact ⟨h.1, hread w h.2.1, h.2.2⟩
  | popNext w x =>
    obtain ⟨hst, hw, hne, hx⟩ := h
    refine ⟨hst, hread w hw, hne, ?_⟩
    intro hcur
    rw [hsince, hup] at hcur
    have hsame := hw.same hcur
    rw [hsame] at hne
    rw [hx hcur, hsame, htop hne]
  | done r => exact h
  | failed => exact h

theorem PhaseOk.bump {st : Status StackOp Result} (h : PhaseOk s t st p)
    (hnext : s'.next = s.next) (hup : s'.updates = s.updates + 1)
    (hcalled : s'.called t = s.called t) (hsince : s'.since t = s.since t) :
    PhaseOk s' t st p := by
  have hread : ∀ w, ReadOk s t w → ReadOk s' t w := by
    intro w hw
    have hle := hw.since
    constructor
    · rw [hsince]
      exact hw.count
    · rw [hsince, hcalled]
      exact hw.called
    · rw [hsince, hup]
      omega
    · rw [hsince, hup]
      intro hno
      omega
  cases p with
  | idle => exact h
  | pushing q =>
    unfold PhaseOk at h ⊢
    rw [hcalled, hup]
    exact ⟨h.1, by omega⟩
  | pushHead q w => exact ⟨h.1, hread w h.2⟩
  | pushNext q w x =>
    unfold PhaseOk
    rw [hnext]
    exact ⟨h.1, hread w h.2.1, h.2.2⟩
  | pushLinked q w =>
    unfold PhaseOk
    rw [hnext]
    exact ⟨h.1, hread w h.2.1, h.2.2⟩
  | popping =>
    unfold PhaseOk at h ⊢
    rw [hcalled, hup]
    exact ⟨h.1, by omega⟩
  | popHead w => exact ⟨h.1, hread w h.2.1, h.2.2⟩
  | popNext w x =>
    obtain ⟨hst, hw, hne, -⟩ := h
    refine ⟨hst, hread w hw, hne, ?_⟩
    intro hcur
    have hle := hw.since
    rw [hsince, hup] at hcur
    omega
  | done r => exact h
  | failed => exact h

theorem StackOk.top_mem (h : StackOk s l status) (hne : getPtr s.head ≠ 0) :
    getPtr s.head ∈ l := by
  obtain ⟨rest, rfl, -, -⟩ := h.chain.eq_cons hne
  exact mem_cons_self

/-- A step of one task that does not change the head.  It may write the
element that the task holds. -/
theorem StackOk.quiet (h : StackOk s l status) (hhead : s'.head = s.head)
    (howned : s'.owned = s.owned) (hup : s'.updates = s.updates)
    (hphase : s'.phase = update s.phase t p) (hheld : p.held = (s.phase t).held)
    (hnext : ∀ q, (s.phase t).held ≠ some q → s'.next q = s.next q)
    (hothers : ∀ t', t' ≠ t → s'.called t' = s.called t' ∧ s'.since t' = s.since t')
    (hstatus : ∀ t', t' ≠ t → status' t' = status t')
    (hp : PhaseOk s' t (status' t) p) : StackOk s' l status' := by
  have hheld' : ∀ t', (s'.phase t').held = (s.phase t').held := by
    intro t'
    rw [hphase]
    by_cases heq : t' = t
    · rw [heq, update_self, hheld]
    · rw [update_of_ne heq]
  have hinside : ∀ q ∈ l, s'.next q = s.next q := by
    intro q hq
    apply hnext
    intro hno
    exact (h.held t q hno).2.1 hq
  refine ⟨?_, h.nodup, ?_, ?_, ?_, ?_, ?_, ?_⟩
  · rw [hhead]
    exact h.chain.congr hinside
  · rw [hhead, hup]
    exact h.count
  · rw [howned]
    exact h.inside
  · intro t' q hq
    rw [hheld'] at hq
    rw [howned]
    exact h.held t' q hq
  · intro t1 t2 q h1 h2
    rw [hheld'] at h1 h2
    exact h.unique t1 t2 q h1 h2
  · intro q hq
    rw [howned] at hq
    refine (h.kept q hq).imp_right ?_
    rintro ⟨t', ht'⟩
    exact ⟨t', (hheld' t').trans ht'⟩
  · intro t'
    by_cases heq : t' = t
    · subst heq
      rw [hphase, update_self]
      exact hp
    · rw [hphase, update_of_ne heq, hstatus t' heq]
      apply (h.phase t').frame hhead hup (hothers t' heq).1 (hothers t' heq).2
      · intro q hq
        apply hnext
        intro hno
        exact heq (h.unique t' t q hq hno)
      · intro hne
        exact hinside _ (h.top_mem hne)

/-! ## One lemma for each step -/

/-- A task that holds nothing takes what nobody holds, and the others hold what they held. -/
theorem held_taken {a : Nat} (ht : (s.phase t).held = none) (hp : p.held = some a) (t' q : Nat) :
    (update s.phase t p t').held = some q ↔
      (t' = t ∧ q = a) ∨ (s.phase t').held = some q := by
  by_cases heq : t' = t
  · rw [heq, update_self, hp, ht, Option.some.injEq]
    simp [eq_comm]
  · rw [update_of_ne heq]
    simp [heq]

theorem StackOk.unique_taken {a : Nat} (h : StackOk s l status) (ht : (s.phase t).held = none)
    (hp : p.held = some a) (hfree : ∀ t', (s.phase t').held ≠ some a) (t1 t2 q : Nat)
    (h1 : (update s.phase t p t1).held = some q)
    (h2 : (update s.phase t p t2).held = some q) : t1 = t2 := by
  rcases (held_taken ht hp t1 q).mp h1 with ⟨heq1, rfl⟩ | hold1
  · rcases (held_taken ht hp t2 q).mp h2 with ⟨heq2, -⟩ | hold2
    · rw [heq1, heq2]
    · exact absurd hold2 (hfree t2)
  · rcases (held_taken ht hp t2 q).mp h2 with ⟨-, rfl⟩ | hold2
    · exact absurd hold1 (hfree t1)
    · exact h.unique t1 t2 q hold1 hold2

/-- A task lets go of what it holds: nobody holds that any more, and the others hold
what they held. -/
theorem StackOk.held_released {a : Nat} (h : StackOk s l status) (ht : (s.phase t).held = some a)
    (hp : p.held = none) (t' q : Nat) :
    (update s.phase t p t').held = some q ↔ q ≠ a ∧ (s.phase t').held = some q := by
  by_cases heq : t' = t
  · rw [heq, update_self, hp, ht, Option.some.injEq]
    exact iff_of_false (by simp) fun hq => hq.1 hq.2.symm
  · rw [update_of_ne heq]
    refine ⟨fun hq => ⟨?_, hq⟩, And.right⟩
    rintro rfl
    exact heq (h.unique t' t q hq ht)

theorem StackOk.callPush {a : Nat} (h : StackOk s l status) (ht : s.phase t = .idle)
    (ha : s.owned a = true) (hpos : 0 < a) (hlt : a < 2 ^ 32) :
    StackOk ((s.setOwned a false).call t (.pushing a)) l
      (update status t (.called (.push a))) := by
  have hnone : (s.phase t).held = none := by
    rw [ht]
    rfl
  have hmem : a ∉ l := by
    intro hno
    rw [h.inside a hno] at ha
    cases ha
  have hfree : ∀ t', (s.phase t').held ≠ some a := by
    intro t' hno
    rw [(h.held t' a hno).1] at ha
    cases ha
  have hphase : ((s.setOwned a false).call t (.pushing a)).phase
      = update s.phase t (.pushing a) := rfl
  have howned : ((s.setOwned a false).call t (.pushing a)).owned
      = update s.owned a false := rfl
  have hheld := held_taken hnone (show (Phase.pushing a).held = some a from rfl)
  refine ⟨h.chain, h.nodup, h.count, ?_, ?_, ?_, ?_, ?_⟩
  · intro q hq
    rw [howned]
    by_cases heq : q = a
    · rw [heq, update_self]
    · rw [update_of_ne heq]
      exact h.inside q hq
  · intro t' q hq
    rw [howned]
    rcases (hheld t' q).mp hq with ⟨-, rfl⟩ | hold
    · rw [update_self]
      exact ⟨rfl, hmem, hpos, hlt⟩
    · rw [update_of_ne]
      · exact h.held t' q hold
      · rintro rfl
        exact hfree t' hold
  · exact h.unique_taken hnone rfl hfree
  · intro q hq
    rw [howned] at hq
    by_cases heq : q = a
    · exact Or.inr ⟨t, (hheld t q).mpr (.inl ⟨rfl, heq⟩)⟩
    · rw [update_of_ne heq] at hq
      refine (h.kept q hq).imp_right ?_
      rintro ⟨t', ht'⟩
      exact ⟨t', (hheld t' q).mpr (.inr ht')⟩
  · intro t'
    by_cases heq : t' = t
    · subst heq
      rw [hphase, update_self, update_self]
      refine ⟨rfl, ?_⟩
      show update s.called t' s.updates t' ≤ s.updates
      rw [update_self]
    · rw [hphase, update_of_ne heq, update_of_ne heq]
      refine (h.phase t').frame rfl rfl ?_ rfl (fun _ _ => rfl) (fun _ => rfl)
      show update s.called t s.updates t' = s.called t'
      rw [update_of_ne heq]

theorem StackOk.callPop (h : StackOk s l status) (ht : s.phase t = .idle) :
    StackOk (s.call t .popping) l (update status t (.called .pop)) := by
  refine h.quiet rfl rfl rfl (t := t) rfl ?_ (fun _ _ => rfl) ?_ ?_ ?_
  · rw [ht]
    rfl
  · intro t' heq
    exact ⟨update_of_ne heq _ _, rfl⟩
  · intro t' heq
    exact update_of_ne heq _ _
  · rw [update_self]
    refine ⟨rfl, ?_⟩
    show update s.called t s.updates t ≤ s.updates
    rw [update_self]

theorem StackOk.readOk (h : StackOk s l status) (hle : s.called t ≤ s.updates) :
    ReadOk (s.readHead t p) t s.head := by
  have hsince : (s.readHead t p).since t = s.updates := update_self _ _ _
  constructor
  · rw [hsince]
    exact h.count
  · rw [hsince]
    exact hle
  · rw [hsince]
    exact Nat.le_refl _
  · intro _
    rfl

theorem StackOk.readHead (h : StackOk s l status) (hheld : p.held = (s.phase t).held)
    (hstatus : ∀ t', t' ≠ t → status' t' = status t')
    (hp : PhaseOk (s.readHead t p) t (status' t) p) : StackOk (s.readHead t p) l status' := by
  refine h.quiet rfl rfl rfl (t := t) rfl hheld (fun _ _ => rfl) ?_ hstatus hp
  intro t' heq
  exact ⟨rfl, update_of_ne heq _ _⟩

theorem StackOk.setPhase (h : StackOk s l status) (hheld : p.held = (s.phase t).held)
    (hp : PhaseOk (s.setPhase t p) t (status t) p) : StackOk (s.setPhase t p) l status :=
  h.quiet rfl rfl rfl (t := t) rfl hheld (fun _ _ => rfl) (fun _ _ => ⟨rfl, rfl⟩)
    (fun _ _ => rfl) hp

theorem StackOk.swapNext {a w x : Nat} (h : StackOk s l status)
    (ht : s.phase t = .pushNext a w x) : StackOk (s.swapNext t a w x) l status := by
  have hok := h.phase t
  rw [ht] at hok
  obtain ⟨hst, hread, hx⟩ := hok
  unfold State.swapNext
  rw [if_pos hx.symm]
  refine h.quiet rfl rfl rfl (t := t) rfl ?_ ?_ (fun _ _ => ⟨rfl, rfl⟩) (fun _ _ => rfl) ?_
  · rw [ht]
    rfl
  · intro q hq
    show update s.next a (nextWord w x) q = s.next q
    rw [update_of_ne]
    rintro rfl
    rw [ht] at hq
    exact hq rfl
  · have hnext : ((s.setNext a (nextWord w x)).setPhase t (.pushLinked a w)).next a
        = nextWord w x := update_self _ _ _
    refine ⟨hst, ⟨hread.count, hread.called, hread.since, hread.same⟩, ?_, ?_⟩
    · rw [hnext]
      exact getPtr_nextWord w x
    · rw [hnext]
      exact getCounter_nextWord w x

theorem StackOk.swapPush {a w : Nat} (h : StackOk s l status)
    (ht : s.phase t = .pushLinked a w) (hhead : s.head = w) :
    StackOk ((s.setHead (headWord w a)).setPhase t (.done .pushed)) (a :: l)
      (update status t (.took (.push a) .pushed)) := by
  have hok := h.phase t
  rw [ht] at hok
  obtain ⟨hst, hread, hptr, htoken⟩ := hok
  have hheldt : (s.phase t).held = some a := by
    rw [ht]
    rfl
  obtain ⟨hownedt, hmem, hpos, hlt⟩ := h.held t a hheldt
  have hphase : ((s.setHead (headWord w a)).setPhase t (.done .pushed)).phase
      = update s.phase t (.done .pushed) := rfl
  have hheld := h.held_released hheldt (show (Phase.done .pushed).held = none from rfl)
  refine ⟨?_, nodup_cons.mpr ⟨hmem, h.nodup⟩, ?_, ?_, ?_, ?_, ?_, ?_⟩
  · show Chain s.next (getPtr (headWord w a)) (a :: l)
    rw [getPtr_headWord, getPtr_of_lt hlt]
    refine ⟨rfl, Nat.pos_iff_ne_zero.mp hpos, htoken, ?_⟩
    rw [hptr, ← hhead]
    exact h.chain
  · show getCounter (headWord w a) = (s.updates + 1) % 2 ^ 32
    rw [getCounter_headWord, ← hhead, h.count]
    omega
  · intro q hq
    rcases mem_cons.mp hq with rfl | hq
    · exact hownedt
    · exact h.inside q hq
  · intro t' q hq
    obtain ⟨hne, hold⟩ := (hheld t' q).mp hq
    obtain ⟨h1, h2, h3⟩ := h.held t' q hold
    exact ⟨h1, fun hno => h2 ((mem_cons.mp hno).resolve_left hne), h3⟩
  · intro t1 t2 q h1 h2
    exact h.unique t1 t2 q ((hheld t1 q).mp h1).2 ((hheld t2 q).mp h2).2
  · intro q hq
    by_cases heq : q = a
    · exact Or.inl (by simp [heq])
    rcases h.kept q hq with hin | ⟨t', ht'⟩
    · exact Or.inl (mem_cons_of_mem _ hin)
    · exact Or.inr ⟨t', (hheld t' q).mpr ⟨heq, ht'⟩⟩
  · intro t'
    by_cases heq : t' = t
    · subst heq
      rw [hphase, update_self, update_self]
      exact ⟨_, rfl⟩
    · rw [hphase, update_of_ne heq, update_of_ne heq]
      exact (h.phase t').bump rfl rfl rfl rfl

/-- The swap of the head by a pop.  The head has not changed since the task read
it, so what it read from the first element is still there. -/
theorem StackOk.swapPop {w x : Nat} (h : StackOk s l status)
    (hshort : s.updates < s.called t + 2 ^ 32) (ht : s.phase t = .popNext w x)
    (hhead : s.head = w) :
    ∃ rest, l = getPtr w :: rest ∧ getCounter x = TOKEN ∧
      StackOk ((s.setHead (headWord w (getPtr x))).setPhase t
          (.done (.popped (some (getPtr w))))) rest
        (update status t (.took .pop (.popped (some (getPtr w))))) := by
  have hok := h.phase t
  rw [ht] at hok
  obtain ⟨hst, hread, hne, hx⟩ := hok
  have hsince := hread.since_eq h hshort hhead
  have hchain := h.chain
  rw [hhead] at hchain
  obtain ⟨rest, rfl, htoken, hrest⟩ := hchain.eq_cons hne
  rw [← hx hsince] at htoken hrest
  refine ⟨rest, rfl, htoken, ?_⟩
  have hnodup := nodup_cons.mp h.nodup
  have hownedw := h.inside (getPtr w) mem_cons_self
  have hphase : ((s.setHead (headWord w (getPtr x))).setPhase t
      (.done (.popped (some (getPtr w))))).phase
      = update s.phase t (.done (.popped (some (getPtr w)))) := rfl
  have hfree : ∀ t', (s.phase t').held ≠ some (getPtr w) := by
    intro t' hno
    exact (h.held t' _ hno).2.1 mem_cons_self
  have hnone : (s.phase t).held = none := by
    rw [ht]
    rfl
  have hheld := held_taken hnone
    (show (Phase.done (.popped (some (getPtr w)))).held = some (getPtr w) from rfl)
  refine ⟨?_, hnodup.2, ?_, ?_, ?_, ?_, ?_, ?_⟩
  · show Chain s.next (getPtr (headWord w (getPtr x))) rest
    rw [getPtr_headWord, getPtr_getPtr]
    exact hrest
  · show getCounter (headWord w (getPtr x)) = (s.updates + 1) % 2 ^ 32
    rw [getCounter_headWord, ← hhead, h.count]
    omega
  · intro q hq
    exact h.inside q (mem_cons_of_mem _ hq)
  · intro t' q hq
    rcases (hheld t' q).mp hq with ⟨-, rfl⟩ | hold
    · exact ⟨hownedw, hnodup.1, Nat.pos_of_ne_zero hne, getPtr_lt w⟩
    · obtain ⟨h1, h2, h3⟩ := h.held t' q hold
      exact ⟨h1, fun hno => h2 (mem_cons_of_mem _ hno), h3⟩
  · exact h.unique_taken hnone rfl hfree
  · intro q hq
    rcases h.kept q hq with hin | ⟨t', ht'⟩
    · rcases mem_cons.mp hin with rfl | hin
      · exact Or.inr ⟨t, (hheld t _).mpr (.inl ⟨rfl, rfl⟩)⟩
      · exact Or.inl hin
    · exact Or.inr ⟨t', (hheld t' q).mpr (.inr ht')⟩
  · intro t'
    by_cases heq : t' = t
    · subst heq
      rw [hphase, update_self, update_self]
      exact ⟨_, rfl⟩
    · rw [hphase, update_of_ne heq, update_of_ne heq]
      exact (h.phase t').bump rfl rfl rfl rfl

theorem StackOk.answerPopped {a : Nat} (h : StackOk s l status)
    (ht : s.phase t = .done (.popped (some a))) :
    StackOk ((s.setOwned a true).setPhase t .idle) l (update status t .idle) := by
  have hheldt : (s.phase t).held = some a := by
    rw [ht]
    rfl
  obtain ⟨-, hmem, -⟩ := h.held t a hheldt
  have hphase : ((s.setOwned a true).setPhase t .idle).phase
      = update s.phase t .idle := rfl
  have howned : ((s.setOwned a true).setPhase t .idle).owned
      = update s.owned a true := rfl
  have hheld := h.held_released hheldt (show Phase.idle.held = none from rfl)
  refine ⟨h.chain, h.nodup, h.count, ?_, ?_, ?_, ?_, ?_⟩
  · intro q hq
    rw [howned, update_of_ne]
    · exact h.inside q hq
    · rintro rfl
      exact hmem hq
  · intro t' q hq
    obtain ⟨hne, hold⟩ := (hheld t' q).mp hq
    rw [howned, update_of_ne hne]
    exact h.held t' q hold
  · intro t1 t2 q h1 h2
    exact h.unique t1 t2 q ((hheld t1 q).mp h1).2 ((hheld t2 q).mp h2).2
  · intro q hq
    rw [howned] at hq
    have hne : q ≠ a := by
      rintro rfl
      rw [update_self] at hq
      cases hq
    rw [update_of_ne hne] at hq
    refine (h.kept q hq).imp_right ?_
    rintro ⟨t', ht'⟩
    exact ⟨t', (hheld t' q).mpr ⟨hne, ht'⟩⟩
  · intro t'
    by_cases heq : t' = t
    · subst heq
      rw [hphase, update_self, update_self]
      rfl
    · rw [hphase, update_of_ne heq, update_of_ne heq]
      exact (h.phase t').frame rfl rfl rfl rfl (fun _ _ => rfl) (fun _ => rfl)

theorem StackOk.answerQuiet (h : StackOk s l status) (hheld : (s.phase t).held = none) :
    StackOk (s.setPhase t .idle) l (update status t .idle) := by
  refine h.quiet rfl rfl rfl (t := t) rfl hheld.symm (fun _ _ => rfl)
    (fun _ _ => ⟨rfl, rfl⟩) ?_ ?_
  · intro t' heq
    exact update_of_ne heq _ _
  · rw [update_self]
    rfl

theorem StackOk.write {a w : Nat} (h : StackOk s l status) (ha : s.owned a = true) :
    StackOk (s.setNext a w) l status := by
  have hnext : ∀ q, s.owned q = false → (s.setNext a w).next q = s.next q := by
    intro q hq
    show update s.next a w q = s.next q
    rw [update_of_ne]
    rintro rfl
    rw [ha] at hq
    cases hq
  refine ⟨h.chain.congr fun q hq => hnext q (h.inside q hq), h.nodup, h.count, h.inside,
    h.held, h.unique, h.kept, ?_⟩
  intro t
  refine (h.phase t).frame rfl rfl rfl rfl ?_ ?_
  · intro q hq
    exact hnext q (h.held t q hq).1
  · intro hne
    exact hnext _ (h.inside _ (h.top_mem hne))

theorem StackOk.step {op : Op} {hist : List (Event Nat StackOp Result)}
    {c : Object (List Nat) Nat StackOp Result} (hexec : Exec stackSpec hist c)
    (h : StackOk s c.state c.status) (hstep : ShortStep s op s') :
    ∃ c', Exec stackSpec (hist ++ op.event.toList) c' ∧ StackOk s' c'.state c'.status := by
  obtain ⟨hshort, hstep⟩ := hstep
  -- most steps leave the object alone
  have hsame : ∀ {op : Op} {s1 : State}, op.event = none → StackOk s1 c.state c.status →
      ∃ c', Exec stackSpec (hist ++ op.event.toList) c' ∧ StackOk s1 c'.state c'.status := by
    intro op s1 hevent hok
    refine ⟨c, ?_, hok⟩
    rw [hevent, Option.toList_none, append_nil]
    exact hexec
  cases hstep with
  | @callPush t a ht ha hpos hlt =>
    have hok := h.phase t
    rw [ht] at hok
    exact ⟨_, hexec.call hok, h.callPush ht ha hpos hlt⟩
  | @callPop t ht =>
    have hok := h.phase t
    rw [ht] at hok
    exact ⟨_, hexec.call hok, h.callPop ht⟩
  | @pushHead t a ht =>
    have hok := h.phase t
    rw [ht] at hok
    apply hsame rfl
    apply h.readHead
    · rw [ht]
      rfl
    · intro _ _
      rfl
    · exact ⟨hok.1, h.readOk hok.2⟩
  | @popHead t ht =>
    have hok := h.phase t
    rw [ht] at hok
    by_cases hnull : getPtr s.head = 0
    · -- the stack is empty when the head is read
      rw [if_pos hnull]
      have hempty : c.state = [] := by
        have hchain := h.chain
        rw [hnull] at hchain
        exact hchain.eq_nil
      have htake : stackSpec.apply c.state .pop = ([], .popped none) := by
        rw [hempty]
        rfl
      refine ⟨c.take stackSpec t .pop, ?_, ?_⟩
      · have htaken := hexec.take hok.1
        exact (append_nil hist).symm ▸ htaken
      · show StackOk _ (stackSpec.apply c.state .pop).1
          (update c.status t (.took .pop (stackSpec.apply c.state .pop).2))
        rw [htake]
        rw [hempty] at h
        apply h.readHead
        · rw [ht]
          rfl
        · intro t' heq
          exact update_of_ne heq _ _
        · rw [update_self]
          exact ⟨_, rfl⟩
    · rw [if_neg hnull]
      apply hsame rfl
      apply h.readHead
      · rw [ht]
        rfl
      · intro _ _
        rfl
      · exact ⟨hok.1, h.readOk hok.2, hnull⟩
  | @pushNext t a w ht =>
    have hok := h.phase t
    rw [ht] at hok
    apply hsame rfl
    apply h.setPhase
    · rw [ht]
      rfl
    · exact ⟨hok.1, ⟨hok.2.count, hok.2.called, hok.2.since, hok.2.same⟩, rfl⟩
  | @popNext t w ht =>
    have hok := h.phase t
    rw [ht] at hok
    apply hsame rfl
    apply h.setPhase
    · rw [ht]
      rfl
    · obtain ⟨hst, hread, hne⟩ := hok
      exact ⟨hst, ⟨hread.count, hread.called, hread.since, hread.same⟩, hne, fun _ => rfl⟩
  | swapNext ht => exact hsame rfl (h.swapNext ht)
  | @swapPush t a w ht =>
    have hok := h.phase t
    rw [ht] at hok
    unfold State.swapPush
    by_cases hhead : s.head = w
    · rw [if_pos hhead]
      refine ⟨c.take stackSpec t (.push a), ?_, h.swapPush ht hhead⟩
      exact (append_nil hist).symm ▸ hexec.take hok.1
    · rw [if_neg hhead]
      refine ⟨c, (append_nil hist).symm ▸ hexec, ?_⟩
      apply h.setPhase
      · rw [ht]
        rfl
      · exact ⟨hok.1, le_trans hok.2.1.called hok.2.1.since⟩
  | @swapPop t w x ht =>
    have hok := h.phase t
    rw [ht] at hok
    unfold State.swapPop
    by_cases hhead : s.head = w
    · rw [if_pos hhead]
      obtain ⟨rest, hstate, htoken, hnew⟩ :=
        h.swapPop (hshort t (by rw [ht]; simp)) ht hhead
      have htake : stackSpec.apply c.state .pop = (rest, .popped (some (getPtr w))) := by
        rw [hstate]
        rfl
      rw [if_pos htoken]
      refine ⟨c.take stackSpec t .pop, (append_nil hist).symm ▸ hexec.take hok.1, ?_⟩
      show StackOk _ (stackSpec.apply c.state .pop).1
        (update c.status t (.took .pop (stackSpec.apply c.state .pop).2))
      rw [htake]
      exact hnew
    · rw [if_neg hhead]
      refine ⟨c, (append_nil hist).symm ▸ hexec, ?_⟩
      apply h.setPhase
      · rw [ht]
        rfl
      · exact ⟨hok.1, le_trans hok.2.1.called hok.2.1.since⟩
  | @answer t r ht =>
    have hok := h.phase t
    rw [ht] at hok
    obtain ⟨o, hst⟩ := hok
    refine ⟨c.setStatus t .idle, hexec.answer hst, ?_⟩
    unfold State.answer
    split
    · exact h.answerPopped ht
    · rename_i hnot
      apply h.answerQuiet
      rw [ht]
      cases r with
      | pushed => rfl
      | popped a =>
        cases a with
        | none => rfl
        | some a => exact absurd rfl (hnot a)
  | write ha => exact hsame rfl (h.write ha)

theorem stackOk_init (next : Nat → Nat) :
    StackOk (State.init next) [] fun _ => .idle := by
  refine ⟨rfl, nodup_nil, ?_, ?_, ?_, ?_, ?_, ?_⟩
  · simp [State.init, getCounter]
  · intro p hp
    cases hp
  · intro t p hp
    cases hp
  · intro t t' p hp
    cases hp
  · intro p hp
    cases hp
  · intro t
    rfl

/-! ## Elements are neither lost nor returned twice -/

theorem history_snoc (ops : List Op) (op : Op) :
    history (ops ++ [op]) = history ops ++ op.event.toList := by
  unfold history
  rw [filterMap_append]
  cases op <;> rfl

theorem StackOk.owned_step {op : Op} {a : Nat} {ops : List Op} (h : StackOk s l status)
    (hstep : Step s op s')
    (hcount : pushes a ops = pops a ops + if s.owned a = true then 0 else 1) :
    pushes a (ops ++ [op]) = pops a (ops ++ [op]) + if s'.owned a = true then 0 else 1 := by
  have hquiet : ∀ {op : Op}, pushes a [op] = 0 → pops a [op] = 0 → s'.owned a = s.owned a →
      pushes a (ops ++ [op]) = pops a (ops ++ [op]) + if s'.owned a = true then 0 else 1 := by
    intro op hpush hpop howned
    unfold pushes pops at *
    rw [countP_append, countP_append, hpush, hpop, howned]
    exact hcount
  cases hstep with
  | @callPush t q ht hq hpos hlt =>
    have howned : ((s.setOwned q false).call t (.pushing q)).owned
        = update s.owned q false := rfl
    unfold pushes pops at *
    rw [countP_append, countP_append, howned]
    by_cases heq : q = a
    · subst heq
      rw [if_pos hq] at hcount
      rw [update_self]
      simp only [countP_singleton, decide_true, if_true, Bool.false_eq_true, if_false]
      omega
    · rw [update_of_ne (Ne.symm heq)]
      simp only [countP_singleton, heq, decide_false, Bool.false_eq_true, if_false]
      omega
  | callPop => exact hquiet rfl rfl rfl
  | pushHead => exact hquiet rfl rfl rfl
  | popHead => exact hquiet rfl rfl rfl
  | pushNext => exact hquiet rfl rfl rfl
  | popNext => exact hquiet rfl rfl rfl
  | swapNext =>
    apply hquiet rfl rfl
    unfold State.swapNext
    split <;> rfl
  | swapPush =>
    apply hquiet rfl rfl
    unfold State.swapPush
    split <;> rfl
  | swapPop =>
    apply hquiet rfl rfl
    unfold State.swapPop
    split <;> rfl
  | @answer t r ht =>
    unfold State.answer at hquiet ⊢
    split
    · rename_i q
      have hq : s.owned q = false := by
        apply (h.held t q _).1
        rw [ht]
        rfl
      have howned : ((s.setOwned q true).setPhase t .idle).owned
          = update s.owned q true := rfl
      unfold pushes pops at *
      rw [countP_append, countP_append, howned]
      by_cases heq : q = a
      · subst heq
        rw [hq] at hcount
        rw [update_self]
        simp only [countP_singleton, decide_true, if_true, Bool.false_eq_true, if_false]
          at hcount ⊢
        omega
      · rw [update_of_ne (Ne.symm heq)]
        simp only [countP_singleton, heq, decide_false, Bool.false_eq_true, if_false]
        omega
    · rename_i hnot
      unfold pushes pops at *
      rw [countP_append, countP_append]
      have hpop : List.countP (fun op => match op with
          | Op.answer _ (.popped (some q)) => decide (q = a)
          | _ => false) [Op.answer t r] = 0 := by
        cases r with
        | pushed => rfl
        | popped b =>
          cases b with
          | none => rfl
          | some b => exact absurd rfl (hnot b)
      rw [hpop]
      exact hcount
  | write => exact hquiet rfl rfl rfl

end Invariant

/-! ## Runs -/

theorem stackOk_of_run {next : Nat → Nat} {ops : List Op} {s : State}
    (hrun : Run ShortStep (State.init next) ops s) :
    ∃ c, Exec stackSpec (history ops) c ∧ StackOk s c.state c.status ∧
      ∀ p, pushes p ops = pops p ops + if s.owned p = true then 0 else 1 := by
  induction hrun with
  | nil => exact ⟨_, .init, stackOk_init next, fun _ => rfl⟩
  | snoc _ hstep ih =>
    obtain ⟨c, hexec, hok, hcount⟩ := ih
    obtain ⟨c', hexec', hok'⟩ := hok.step hexec hstep
    refine ⟨c', ?_, hok', fun p => hok.owned_step hstep.2 (hcount p)⟩
    rw [history_snoc]
    exact hexec'

/-- In every run in which fewer than `2 ^ 32` changes of the head fall into each
operation, the history is one of the atomic stack.  The elements in the linked
list are those of the atomic stack, no assertion fails, and every element was
pushed as often as it was returned, and once more exactly while it is in the
stack or in an operation. -/
theorem stack_of_run {next : Nat → Nat} {ops : List Op} {s : State}
    (hrun : Run ShortStep (State.init next) ops s) :
    ∃ c, Exec stackSpec (history ops) c ∧ Chain s.next (getPtr s.head) c.state ∧
      c.state.Nodup ∧ (∀ t, s.phase t ≠ .failed) ∧
      ∀ p, (p ∈ c.state ∨ ∃ t, (s.phase t).held = some p) ∧ pushes p ops = pops p ops + 1 ∨
        ¬ (p ∈ c.state ∨ ∃ t, (s.phase t).held = some p) ∧ pushes p ops = pops p ops := by
  obtain ⟨c, hexec, hok, hcount⟩ := stackOk_of_run hrun
  refine ⟨c, hexec, hok.chain, hok.nodup, ?_, ?_⟩
  · intro t hfailed
    have hphase := hok.phase t
    rw [hfailed] at hphase
    exact hphase
  · intro p
    have hp := hcount p
    cases howned : s.owned p with
    | false =>
      rw [howned] at hp
      exact Or.inl ⟨hok.kept p howned, hp⟩
    | true =>
      rw [howned] at hp
      refine Or.inr ⟨?_, hp⟩
      rintro (hin | ⟨t, ht⟩)
      · rw [hok.inside p hin] at howned
        cases howned
      · rw [(hok.held t p ht).1] at howned
        cases howned

/-- The steps of a push by task 0 from its call to the swap of the head. -/
def pushing (p : Nat) : List Op :=
  [.callPush 0 p, .readHead 0, .readNext 0, .swapNext 0, .swapHead 0]

/-- Task 0 pushes a second element while task 1 pops, whose swap of the head fails once. -/
theorem stack_of_run_push_pop : ∃ c : Object (List Nat) Nat StackOp Result, ∃ s,
    Run ShortStep (State.init fun _ => 0)
      (pushing 64 ++ [.answer 0 .pushed, .callPop 1, .readHead 1, .readNext 1] ++ pushing 128 ++
        [.swapHead 1, .readHead 1, .readNext 1, .swapHead 1, .answer 1 (.popped (some 128))]) s ∧
    Exec stackSpec [.invoke 0 (.push 64), .respond 0 .pushed, .invoke 1 .pop, .invoke 0 (.push 128),
      .respond 1 (.popped (some 128))] c ∧
    Chain s.next (getPtr s.head) c.state := by
  have hshort : ∀ s : State, s.updates ≤ 3 → Short s := by
    intro s hle t _
    have hpos : (3 : Nat) < 2 ^ 32 := by decide
    omega
  have hrun : ∃ s, Run ShortStep (State.init fun _ => 0)
      (pushing 64 ++ [.answer 0 .pushed, .callPop 1, .readHead 1, .readNext 1] ++ pushing 128 ++
        [.swapHead 1, .readHead 1, .readNext 1, .swapHead 1, .answer 1 (.popped (some 128))]) s := by
    refine ⟨_, .cons ⟨?_, .callPush rfl rfl (by decide) (by decide)⟩ (.cons ⟨?_, .pushHead rfl⟩
      (.cons ⟨?_, .pushNext rfl⟩ (.cons ⟨?_, .swapNext rfl⟩ (.cons ⟨?_, .swapPush rfl⟩
      (.cons ⟨?_, .answer rfl⟩ (.cons ⟨?_, .callPop rfl⟩ (.cons ⟨?_, .popHead rfl⟩
      (.cons ⟨?_, .popNext rfl⟩ (.cons ⟨?_, .callPush rfl rfl (by decide) (by decide)⟩
      (.cons ⟨?_, .pushHead rfl⟩ (.cons ⟨?_, .pushNext rfl⟩ (.cons ⟨?_, .swapNext rfl⟩
      (.cons ⟨?_, .swapPush rfl⟩ (.cons ⟨?_, .swapPop rfl⟩ (.cons ⟨?_, .popHead rfl⟩
      (.cons ⟨?_, .popNext rfl⟩ (.cons ⟨?_, .swapPop rfl⟩ (.cons ⟨?_, .answer rfl⟩
        .nil))))))))))))))))))⟩
    all_goals exact hshort _ (by decide)
  obtain ⟨s, hrun⟩ := hrun
  obtain ⟨c, hexec, hchain, -⟩ := stack_of_run hrun
  exact ⟨c, s, hrun, hexec, hchain⟩

end Hostboot.Util.Lockfree
