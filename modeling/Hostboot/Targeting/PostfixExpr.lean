import Hostboot.Lib.Postfix
import Mathlib.Algebra.Group.Nat.Defs
import Mathlib.Data.List.Forall2

/-!
# Predicate expressions

A `PredicatePostfixExpr` is a list of operations in postfix form.  `operator()`
runs them over a stack of words: a word is 0 or 1 where an operand has been
evaluated, and the address of a predicate where it has not.  An `AND` whose left
side is false does not evaluate its right side, and neither does an `OR` whose
left side is true.

The operations are built by calls of `push`, `And`, `Or` and `Not`.  They are
read as postfix expressions: `step_rel` compares one operation with one token,
`run_rel` the whole loop, and `call_spec` says that `operator()` asserts exactly
for what is no expression and computes the Boolean value otherwise.
-/

namespace Hostboot.Targeting

open Lib

/-! ## The functions of the source -/

inductive LogicalOperator
  | EVAL | AND | OR | NOT

structure Operation where
  logicalOp : LogicalOperator
  pPredicate : UInt64

/-- A pointer to a predicate, null or aligned as an object with virtual functions is. -/
structure PredicatePtr where
  addr : UInt64
  aligned : addr.toNat % 8 = 0

structure PredicatePostfixExpr where
  ivOps : List Operation

/-- `PredicatePostfixExpr::push`.  `none` stands for the assertion. -/
def PredicatePostfixExpr.push (e : PredicatePostfixExpr) (pPredicate : PredicatePtr) :
    Option PredicatePostfixExpr :=
  if pPredicate.addr = 0 then none else some ⟨e.ivOps ++ [⟨.EVAL, pPredicate.addr⟩]⟩

/-- `PredicatePostfixExpr::And`. -/
def PredicatePostfixExpr.and (e : PredicatePostfixExpr) : PredicatePostfixExpr :=
  ⟨e.ivOps ++ [⟨.AND, 0⟩]⟩

/-- `PredicatePostfixExpr::Or`. -/
def PredicatePostfixExpr.or (e : PredicatePostfixExpr) : PredicatePostfixExpr :=
  ⟨e.ivOps ++ [⟨.OR, 0⟩]⟩

/-- `PredicatePostfixExpr::Not`. -/
def PredicatePostfixExpr.not (e : PredicatePostfixExpr) : PredicatePostfixExpr :=
  ⟨e.ivOps ++ [⟨.NOT, 0⟩]⟩

def ALREADY_EVALUATED_UPPER_BOUND : UInt64 := 1

def alreadyEvaluated (stackItem : UInt64) : Bool := stackItem ≤ ALREADY_EVALUATED_UPPER_BOUND

/-- A truth value as a word. -/
def ofBool (b : Bool) : UInt64 := if b then 1 else 0

/-- A word of the stack, evaluated if it is still the address of a predicate. -/
def evaluated (predicate : UInt64 → Bool) (item : UInt64) : UInt64 :=
  if alreadyEvaluated item then item else ofBool (predicate item)

/-- One round of the loop of `operator()`, with the top of the stack first. -/
def step (predicate : UInt64 → Bool) (op : Operation) (stack : List UInt64) :
    Option (List UInt64) :=
  match op.logicalOp, stack with
  | .EVAL, stack => some (op.pPredicate :: stack)
  | .AND, rhs :: lhs :: stack =>
    let lhs := evaluated predicate lhs
    if lhs = 0 then some (0 :: stack)
    else
      let rhs := evaluated predicate rhs
      some (ofBool (lhs ≠ 0 && rhs ≠ 0) :: stack)
  | .OR, rhs :: lhs :: stack =>
    let lhs := evaluated predicate lhs
    if lhs = 1 then some (1 :: stack)
    else
      let rhs := evaluated predicate rhs
      some (ofBool (lhs ≠ 0 || rhs ≠ 0) :: stack)
  | .NOT, lhs :: stack =>
    let lhs := evaluated predicate lhs
    some (ofBool (lhs = 0) :: stack)
  | _, _ => none

/-- The loop of `operator()`. -/
def run (predicate : UInt64 → Bool) : List Operation → List UInt64 → Option (List UInt64)
  | [], stack => some stack
  | op :: ops, stack => (step predicate op stack).bind (run predicate ops)

/-- `PredicatePostfixExpr::operator()`, where `predicates` are the answers of the
predicates at their addresses. -/
def PredicatePostfixExpr.call {T : Type} (e : PredicatePostfixExpr)
    (predicates : UInt64 → T → Bool) (pTarget : Option T) : Option Bool :=
  match pTarget with
  | none => none
  | some target =>
    match run (predicates · target) e.ivOps [] with
    | some [] => some true
    | some [lhs] => some (evaluated (predicates · target) lhs ≠ 0)
    | _ => none

/-! ## The calls that build an expression -/

/-- A call on a predicate expression. -/
inductive Call
  | push (p : PredicatePtr) | and | or | not

/-- What a call does. -/
def Call.apply (e : PredicatePostfixExpr) : Call → Option PredicatePostfixExpr
  | push p => e.push p
  | and => some e.and
  | or => some e.or
  | not => some e.not

/-- Calls one after the other, on an expression. -/
def PredicatePostfixExpr.after (e : PredicatePostfixExpr) : List Call → Option PredicatePostfixExpr
  | [] => some e
  | c :: cs => (c.apply e).bind (·.after cs)

/-- The two binary operators. -/
inductive Connective
  | and | or

/-- An expression over predicates. -/
abbrev Formula := Term PredicatePtr Unit Connective

/-- The token of a call. -/
def Call.token : Call → Token PredicatePtr Unit Connective
  | push p => .operand p
  | and => .binary .and
  | or => .binary .or
  | not => .unary ()

/-- The operation of a call. -/
def Call.operation : Call → Operation
  | push p => ⟨.EVAL, p.addr⟩
  | and => ⟨.AND, 0⟩
  | or => ⟨.OR, 0⟩
  | not => ⟨.NOT, 0⟩

/-- Ordinary Boolean semantics. -/
def Connective.denote : Connective → Bool → Bool → Bool
  | and, a, b => a && b
  | or, a, b => a || b

def Formula.holds (predicate : UInt64 → Bool) (x : Formula) : Bool :=
  x.value (fun p => predicate p.addr) (fun _ b => !b) Connective.denote

/-- The calls spell no expression at all, or one. -/
def WellFormed (calls : List Call) : Prop :=
  calls = [] ∨ ∃ x : Formula, calls.map Call.token = x.tokens

/-- A call whose pointer is not null. -/
def Call.Proper : Call → Prop
  | push p => p.addr ≠ 0
  | _ => True

theorem ivOps_after {calls : List Call} {e e' : PredicatePostfixExpr}
    (h : e.after calls = some e') :
    e'.ivOps = e.ivOps ++ calls.map Call.operation ∧ ∀ c ∈ calls, c.Proper := by
  induction calls generalizing e with
  | nil =>
    cases h
    exact ⟨(List.append_nil _).symm, fun _ hc => absurd hc List.not_mem_nil⟩
  | cons c cs ih =>
    obtain ⟨e1, happly, hrest⟩ := Option.bind_eq_some_iff.mp h
    obtain ⟨hops, hproper⟩ := ih hrest
    have hfirst : e1.ivOps = e.ivOps ++ [c.operation] ∧ c.Proper := by
      cases c with
      | push p =>
        rw [Call.apply, PredicatePostfixExpr.push] at happly
        split at happly
        · cases happly
        · rename_i hne
          cases happly
          exact ⟨rfl, hne⟩
      | and | or | not =>
        cases happly
        exact ⟨rfl, trivial⟩
    refine ⟨?_, List.forall_mem_cons.mpr ⟨hfirst.2, hproper⟩⟩
    rw [hops, hfirst.1, List.append_assoc]
    rfl

/-! ## The stack -/

section Stack

variable {predicate : UInt64 → Bool}

@[simp] theorem evaluated_ofBool (b : Bool) : evaluated predicate (ofBool b) = ofBool b := by
  cases b <;> rfl

theorem evaluated_addr {p : PredicatePtr} (hp : p.addr ≠ 0) :
    evaluated predicate p.addr = ofBool (predicate p.addr) := by
  have haligned := p.aligned
  have hpos : p.addr.toNat ≠ 0 := fun h => hp (UInt64.toNat_inj.mp h)
  have hlarge : ¬ p.addr ≤ ALREADY_EVALUATED_UPPER_BOUND := by
    intro hle
    have hle' : p.addr.toNat ≤ 1 := hle
    omega
  unfold evaluated alreadyEvaluated
  rw [if_neg (by simpa using hlarge)]

/-- The word of a stack stands for an expression: it is its value, or will be
evaluated to it. -/
def Denotes (predicate : UInt64 → Bool) (item : UInt64) (x : Formula) : Prop :=
  evaluated predicate item = ofBool (x.holds predicate)

theorem step_rel {c : Call} (hc : c.Proper) {stack : List UInt64} {xs : List Formula}
    (h : List.Forall₂ (Denotes predicate) stack xs) :
    Option.Rel (List.Forall₂ (Denotes predicate)) (step predicate c.operation stack)
      (c.token.push xs) := by
  cases c with
  | push p => exact .some (.cons (evaluated_addr hc) h)
  | not =>
    cases h with
    | nil => exact .none
    | @cons lhs x stack xs hx hrest =>
      refine .some (.cons ?_ hrest)
      unfold Denotes at hx ⊢
      rw [hx, evaluated_ofBool]
      show ofBool _ = ofBool (!x.holds predicate)
      cases x.holds predicate <;> rfl
  | and =>
    cases h with
    | nil => exact .none
    | cons hy hrest =>
      cases hrest with
      | nil => exact .none
      | @cons lhs x stack xs hx hrest =>
        rename_i rhs y
        unfold Denotes at hx hy
        have hresult : step predicate Call.and.operation (rhs :: lhs :: stack)
            = some (ofBool (x.holds predicate && y.holds predicate) :: stack) := by
          show (if evaluated predicate lhs = 0 then some (0 :: stack) else some (ofBool
            (evaluated predicate lhs ≠ 0 && evaluated predicate rhs ≠ 0) :: stack)) = _
          rw [hx, hy]
          cases x.holds predicate <;> cases y.holds predicate <;> rfl
        rw [hresult]
        exact .some (.cons (evaluated_ofBool _) hrest)
  | or =>
    cases h with
    | nil => exact .none
    | cons hy hrest =>
      cases hrest with
      | nil => exact .none
      | @cons lhs x stack xs hx hrest =>
        rename_i rhs y
        unfold Denotes at hx hy
        have hresult : step predicate Call.or.operation (rhs :: lhs :: stack)
            = some (ofBool (x.holds predicate || y.holds predicate) :: stack) := by
          show (if evaluated predicate lhs = 1 then some (1 :: stack) else some (ofBool
            (evaluated predicate lhs ≠ 0 || evaluated predicate rhs ≠ 0) :: stack)) = _
          rw [hx, hy]
          cases x.holds predicate <;> cases y.holds predicate <;> rfl
        rw [hresult]
        exact .some (.cons (evaluated_ofBool _) hrest)

theorem run_rel {calls : List Call} (hcalls : ∀ c ∈ calls, c.Proper) {stack : List UInt64}
    {xs : List Formula} (h : List.Forall₂ (Denotes predicate) stack xs) :
    Option.Rel (List.Forall₂ (Denotes predicate)) (run predicate (calls.map Call.operation) stack)
      (Token.reduce (calls.map Call.token) xs) := by
  induction calls generalizing stack xs with
  | nil => exact .some h
  | cons c cs ih =>
    obtain ⟨hc, hcs⟩ := List.forall_mem_cons.mp hcalls
    have hstep := step_rel hc h
    rw [List.map_cons, List.map_cons, run, Token.reduce]
    cases hs : step predicate c.operation stack with
    | none =>
      rw [hs] at hstep
      cases hp : c.token.push xs with
      | none => exact .none
      | some xs' =>
        rw [hp] at hstep
        cases hstep
    | some stack' =>
      rw [hs] at hstep
      cases hp : c.token.push xs with
      | none =>
        rw [hp] at hstep
        cases hstep
      | some xs' =>
        rw [hp] at hstep
        cases hstep with
        | some hstack => exact ih hcs hstack

end Stack

/-! ## The value of an expression -/

/-- Counting finds the lists that are no expression: an operator has too few
operands, or more than one value is left. -/
theorem wellFormed_iff (calls : List Call) :
    WellFormed calls ↔ ∃ n ≤ 1, Token.depth (calls.map Call.token) 0 = some n := by
  have hdepth : Token.depth (calls.map Call.token) 0
      = (Token.reduce (calls.map Call.token) []).map List.length := Token.depth_eq _ []
  rw [hdepth]
  constructor
  · rintro (rfl | ⟨x, hx⟩)
    · exact ⟨0, by omega, rfl⟩
    · rw [hx, Token.reduce_tokens]
      exact ⟨1, by omega, rfl⟩
  · rintro ⟨n, hn, hlen⟩
    obtain ⟨xs, hxs, rfl⟩ := Option.map_eq_some_iff.mp hlen
    match xs, hn, hxs with
    | [], _, hxs =>
      exact .inl (List.map_eq_nil_iff.mp (Token.reduce_eq_nil.mp hxs))
    | [x], _, hxs => exact .inr ⟨x, Token.reduce_eq_singleton.mp hxs⟩

/-- `operator()` asserts exactly when the calls spell no expression.  It is true
for no calls, and the Boolean value of the expression that the calls spell. -/
theorem call_spec {T : Type} (calls : List Call) (e : PredicatePostfixExpr)
    (hbuilt : PredicatePostfixExpr.after ⟨[]⟩ calls = some e) (predicates : UInt64 → T → Bool)
    (target : T) :
    (e.call predicates (some target) = none ↔ ¬ WellFormed calls) ∧
      (calls = [] → e.call predicates (some target) = some true) ∧
      (∀ x : Formula, calls.map Call.token = x.tokens →
        e.call predicates (some target) = some (x.holds (predicates · target))) ∧
      (WellFormed calls ↔ ∃ n ≤ 1, Token.depth (calls.map Call.token) 0 = some n) := by
  obtain ⟨hops, hproper⟩ := ivOps_after hbuilt
  have hops' : e.ivOps = calls.map Call.operation := hops
  have hrel : Option.Rel (List.Forall₂ (Denotes (predicates · target)))
      (run (predicates · target) (calls.map Call.operation) [])
      (Token.reduce (calls.map Call.token) []) := run_rel hproper .nil
  rw [← hops'] at hrel
  have hempty : calls = [] → e.call predicates (some target) = some true := by
    rintro rfl
    rw [PredicatePostfixExpr.call, hops']
    rfl
  have hvalue : ∀ x : Formula, calls.map Call.token = x.tokens →
      e.call predicates (some target) = some (x.holds (predicates · target)) := by
    intro x hx
    rw [hx, Token.reduce_tokens] at hrel
    rw [PredicatePostfixExpr.call]
    cases hrun : run (predicates · target) e.ivOps [] with
    | none =>
      rw [hrun] at hrel
      cases hrel
    | some stack =>
      rw [hrun] at hrel
      cases hrel with
      | some hstack =>
        obtain ⟨lhs, rest, hlhs, hrest, rfl⟩ := List.forall₂_cons_right_iff.mp hstack
        cases hrest
        unfold Denotes at hlhs
        dsimp only
        rw [hlhs]
        cases x.holds (predicates · target) <;> rfl
  refine ⟨⟨?_, ?_⟩, hempty, hvalue, wellFormed_iff calls⟩
  · rintro hnone (hnil | ⟨x, hx⟩)
    · rw [hempty hnil] at hnone
      cases hnone
    · rw [hvalue x hx] at hnone
      cases hnone
  · intro hbad
    rw [PredicatePostfixExpr.call]
    cases hread : Token.reduce (calls.map Call.token) ([] : List Formula) with
    | none =>
      rw [hread] at hrel
      cases hrun : run (predicates · target) e.ivOps [] with
      | none => rfl
      | some stack =>
        rw [hrun] at hrel
        cases hrel
    | some xs =>
      rw [hread] at hrel
      cases hrun : run (predicates · target) e.ivOps [] with
      | none => rfl
      | some stack =>
        rw [hrun] at hrel
        cases hrel with
        | some hstack =>
          -- one word or none on the stack would be one expression or none
          match stack, xs, hstack with
          | [], [], _ =>
            exact absurd (.inl (List.map_eq_nil_iff.mp (Token.reduce_eq_nil.mp hread))) hbad
          | [_], [x], _ =>
            exact absurd (.inr ⟨x, Token.reduce_eq_singleton.mp hread⟩) hbad
          | _ :: _ :: _, _ :: _ :: _, _ => rfl

/-- Two predicates, their conjunction and its negation. -/
theorem call_spec_nand : ∃ e, PredicatePostfixExpr.after ⟨[]⟩
      [.push ⟨8, by decide⟩, .push ⟨16, by decide⟩, .and, .not] = some e ∧
    (e.call (fun p (t : Nat) => p.toNat = t) (some 8) = none ↔
      ¬ WellFormed [.push ⟨8, by decide⟩, .push ⟨16, by decide⟩, .and, .not]) :=
  ⟨_, rfl, (call_spec [.push ⟨8, by decide⟩, .push ⟨16, by decide⟩, .and, .not] _ rfl _ 8).1⟩

end Hostboot.Targeting
