import Mathlib.Data.List.Basic
import Mathlib.Logic.Function.Basic

/-!
# Atomic objects and linearizability

An object serves operations of many callers.  A caller invokes an operation
and later gets a response, and in between other callers do the same.  The
atomic object of a sequential specification takes each operation at one point
between its invocation and its response.  A history of invocations and
responses is linearizable when the atomic object has it.

* `Spec` is a sequential specification.
* `Object`, `Object.Step` and `Exec` are the atomic object and its executions.
  The object notes the operations in the order of their points.
* `Exec.call`, `Exec.take` and `Exec.answer` extend an execution, which is how
  an implementation is related to the object step by step.
-/

namespace Hostboot.Lib.Atomic

variable {σ ι ο ρ : Type*}

/-- A sequential specification: states, operations and results. -/
structure Spec (σ ο ρ : Type*) where
  init : σ
  apply : σ → ο → σ × ρ

/-- What the callers see. -/
inductive Event (ι ο ρ : Type*) where
  | invoke (t : ι) (o : ο)
  | respond (t : ι) (r : ρ)

/-- Where the operation of a caller is. -/
inductive Status (ο ρ : Type*) where
  | idle
  | called (o : ο)
  /-- The object has taken the operation. -/
  | took (o : ο) (r : ρ)

/-- The atomic object: the state, the status of each caller, and the
operations taken so far with caller and result, oldest first. -/
structure Object (σ ι ο ρ : Type*) where
  state : σ
  status : ι → Status ο ρ
  order : List (ι × ο × ρ)

variable [DecidableEq ι] {spec : Spec σ ο ρ} {c c' : Object σ ι ο ρ} {h : List (Event ι ο ρ)}

namespace Object

/-- A new object. -/
def init (spec : Spec σ ο ρ) : Object σ ι ο ρ := ⟨spec.init, fun _ => .idle, []⟩

def setStatus (c : Object σ ι ο ρ) (t : ι) (status : Status ο ρ) : Object σ ι ο ρ :=
  { c with status := Function.update c.status t status }

/-- The point of an operation. -/
def take (spec : Spec σ ο ρ) (c : Object σ ι ο ρ) (t : ι) (o : ο) : Object σ ι ο ρ where
  state := (spec.apply c.state o).1
  status := Function.update c.status t (.took o (spec.apply c.state o).2)
  order := c.order ++ [(t, o, (spec.apply c.state o).2)]

/-- One step of the object, with the event the callers see. -/
inductive Step (spec : Spec σ ο ρ) (c : Object σ ι ο ρ) :
    Option (Event ι ο ρ) → Object σ ι ο ρ → Prop
  | invoke {t : ι} {o : ο} (ht : c.status t = .idle) :
      Step spec c (some (.invoke t o)) (c.setStatus t (.called o))
  | take {t : ι} {o : ο} (ht : c.status t = .called o) : Step spec c none (c.take spec t o)
  | respond {t : ι} {o : ο} {r : ρ} (ht : c.status t = .took o r) :
      Step spec c (some (.respond t r)) (c.setStatus t .idle)

end Object

/-- The object has an execution with the history `h` that ends in `c`. -/
inductive Exec (spec : Spec σ ο ρ) : List (Event ι ο ρ) → Object σ ι ο ρ → Prop
  | init : Exec spec [] (.init spec)
  | step {h : List (Event ι ο ρ)} {e : Option (Event ι ο ρ)} {c c' : Object σ ι ο ρ} :
      Exec spec h c → c.Step spec e c' → Exec spec (h ++ e.toList) c'

namespace Exec

theorem call {t : ι} {o : ο} (hexec : Exec spec h c) (ht : c.status t = .idle) :
    Exec spec (h ++ [.invoke t o]) (c.setStatus t (.called o)) :=
  hexec.step (.invoke ht)

theorem take {t : ι} {o : ο} (hexec : Exec spec h c) (ht : c.status t = .called o) :
    Exec spec h (c.take spec t o) := by
  have hstep := hexec.step (.take ht)
  rwa [Option.toList_none, List.append_nil] at hstep

theorem answer {t : ι} {o : ο} {r : ρ} (hexec : Exec spec h c) (ht : c.status t = .took o r) :
    Exec spec (h ++ [.respond t r]) (c.setStatus t .idle) :=
  hexec.step (.respond ht)

end Exec

end Hostboot.Lib.Atomic
