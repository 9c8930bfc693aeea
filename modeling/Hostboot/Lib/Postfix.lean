import Mathlib.Tactic.Common

/-!
# Postfix expressions

`Term` is an expression over operands, unary operators and binary operators, and
`Term.tokens` its tokens with every operator behind its operands.  `reduce`
reads tokens onto a stack of terms, the last one first, and fails at an operator
that finds too few of them.

* `reduce_tokens`: the tokens of a term are read as that term.
* `stacked_of_reduce`: what was read are the tokens of the terms on the stack, so
  a list of tokens is the postfix form of at most one term.
* `depth_eq` counts the terms without building them.
-/

namespace Hostboot.Lib

/-- A token over operands `α`, unary operators `U` and binary operators `B`. -/
inductive Token (α U B : Type)
  | operand (a : α)
  | unary (u : U)
  | binary (b : B)

/-- An expression. -/
inductive Term (α U B : Type)
  | operand (a : α)
  | unary (u : U) (e : Term α U B)
  | binary (b : B) (e e' : Term α U B)

namespace Term

variable {α U B β : Type}

/-- Every operator behind its operands. -/
def tokens : Term α U B → List (Token α U B)
  | operand a => [.operand a]
  | unary u e => e.tokens ++ [.unary u]
  | binary b e e' => e.tokens ++ e'.tokens ++ [.binary b]

/-- The value of an expression. -/
def value (atom : α → β) (un : U → β → β) (bin : B → β → β → β) : Term α U B → β
  | operand a => atom a
  | unary u e => un u (e.value atom un bin)
  | binary b e e' => bin b (e.value atom un bin) (e'.value atom un bin)

end Term

namespace Token

variable {α U B : Type}

/-- One token, read onto a stack. -/
def push : Token α U B → List (Term α U B) → Option (List (Term α U B))
  | operand a, es => some (.operand a :: es)
  | unary u, e :: es => some (.unary u e :: es)
  | binary b, e' :: e :: es => some (.binary b e e' :: es)
  | _, _ => none

/-- Tokens read onto a stack, one after the other. -/
def reduce : List (Token α U B) → List (Term α U B) → Option (List (Term α U B))
  | [], es => some es
  | t :: ts, es => (t.push es).bind (reduce ts)

/-- The tokens of the terms on a stack, the last one first. -/
def stacked : List (Term α U B) → List (Token α U B)
  | [] => []
  | e :: es => stacked es ++ e.tokens

theorem reduce_append (ts ts' : List (Token α U B)) (es : List (Term α U B)) :
    reduce (ts ++ ts') es = (reduce ts es).bind (reduce ts') := by
  induction ts generalizing es with
  | nil => rfl
  | cons t ts ih =>
    rw [List.cons_append, reduce, reduce, Option.bind_assoc]
    exact Option.bind_congr fun es' _ => ih es'

theorem reduce_tokens (e : Term α U B) (es : List (Term α U B)) :
    reduce e.tokens es = some (e :: es) := by
  induction e generalizing es with
  | operand a => rfl
  | unary u e ih =>
    rw [Term.tokens, reduce_append, ih]
    rfl
  | binary b e e' ih ih' =>
    rw [Term.tokens, reduce_append, reduce_append, ih, Option.bind_some, ih']
    rfl

theorem stacked_push {t : Token α U B} {es es' : List (Term α U B)} (h : t.push es = some es') :
    stacked es' = stacked es ++ [t] := by
  match t, es, h with
  | operand a, es, h =>
    cases h
    rfl
  | unary u, e :: es, h =>
    cases h
    rw [stacked, stacked, Term.tokens, List.append_assoc]
  | binary b, e' :: e :: es, h =>
    cases h
    rw [stacked, stacked, stacked, Term.tokens]
    simp only [List.append_assoc]

theorem stacked_of_reduce {ts : List (Token α U B)} {es es' : List (Term α U B)}
    (h : reduce ts es = some es') : stacked es' = stacked es ++ ts := by
  induction ts generalizing es with
  | nil =>
    cases h
    exact (List.append_nil _).symm
  | cons t ts ih =>
    obtain ⟨es1, hpush, hrest⟩ := Option.bind_eq_some_iff.mp h
    rw [ih hrest, stacked_push hpush, List.append_assoc]
    rfl

/-- A list of tokens is the postfix form of a term exactly when it is read as
that term alone. -/
theorem reduce_eq_singleton {ts : List (Token α U B)} {e : Term α U B} :
    reduce ts [] = some [e] ↔ ts = e.tokens := by
  constructor
  · exact fun h => (stacked_of_reduce h).symm
  · rintro rfl
    exact reduce_tokens e []

theorem reduce_eq_nil {ts : List (Token α U B)} : reduce ts [] = some [] ↔ ts = [] := by
  constructor
  · exact fun h => (stacked_of_reduce h).symm
  · rintro rfl
    rfl

/-! ## Counting -/

/-- The number of terms, one token further. -/
def count : Token α U B → Nat → Option Nat
  | operand _, n => some (n + 1)
  | unary _, n + 1 => some (n + 1)
  | binary _, n + 2 => some (n + 1)
  | _, _ => none

/-- The number of terms on the stack, without the terms. -/
def depth : List (Token α U B) → Nat → Option Nat
  | [], n => some n
  | t :: ts, n => (t.count n).bind (depth ts)

theorem count_eq (t : Token α U B) (es : List (Term α U B)) :
    t.count es.length = (t.push es).map List.length := by
  match t, es with
  | operand _, _ => rfl
  | unary _, [] => rfl
  | unary _, _ :: _ => rfl
  | binary _, [] => rfl
  | binary _, [_] => rfl
  | binary _, _ :: _ :: _ => rfl

theorem depth_eq (ts : List (Token α U B)) (es : List (Term α U B)) :
    depth ts es.length = (reduce ts es).map List.length := by
  induction ts generalizing es with
  | nil => rfl
  | cons t ts ih =>
    rw [depth, reduce, count_eq]
    cases t.push es with
    | none => rfl
    | some es' => exact ih es'

end Token

end Hostboot.Lib
