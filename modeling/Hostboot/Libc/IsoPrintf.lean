import Hostboot.Libc.Sprintf
import Mathlib.Data.Nat.Digits.Defs

/-!
# Formatted output by the standard

What the standard for C says of the formats that the code knows: characters of their own, `%%`,
and the conversions d, i, u, x, X, o, c and s with flags, a width and a length modifier.  The
standard defines a format by its directives, so a format is a list of them here, and `text`
gives its characters.

`print` is `none` where the standard leaves the behaviour undefined (`Spec.Defined`, and
arguments of other types), and for wide characters and strings.
-/

namespace Hostboot.Libc.Iso

/-! ## Directives -/

/-- The flags. -/
inductive Flag
  | minus | plus | space | alt | zero
  deriving DecidableEq, Repr

def Flag.char : Flag → UInt8
  | minus => ch '-'
  | plus => ch '+'
  | space => ch ' '
  | alt => ch '#'
  | zero => ch '0'

/-- The length modifiers of integers. -/
inductive Length
  | hh | h | l | ll | j | z | t
  deriving DecidableEq, Repr

def Length.text : Length → List UInt8
  | hh => [ch 'h', ch 'h']
  | h => [ch 'h']
  | l => [ch 'l']
  | ll => [ch 'l', ch 'l']
  | j => [ch 'j']
  | z => [ch 'z']
  | t => [ch 't']

/-- The conversions. -/
inductive Conv
  | d | i | u | x | X | o | c | s
  deriving DecidableEq, Repr

def Conv.char : Conv → UInt8
  | d => ch 'd'
  | i => ch 'i'
  | u => ch 'u'
  | x => ch 'x'
  | X => ch 'X'
  | o => ch 'o'
  | c => ch 'c'
  | s => ch 's'

def Conv.Signed (v : Conv) : Prop := v = d ∨ v = i

def Conv.Numeric (v : Conv) : Prop := v ≠ c ∧ v ≠ s

def Conv.base : Conv → Nat
  | x => 16
  | X => 16
  | o => 8
  | _ => 10

instance (v : Conv) : Decidable v.Signed := inferInstanceAs (Decidable (_ ∨ _))

instance (v : Conv) : Decidable v.Numeric := inferInstanceAs (Decidable (_ ∧ _))

/-- A digit of a number. -/
def digitChar (upper : Bool) (n : Nat) : UInt8 :=
  ch (if upper then (Nat.digitChar n).toUpper else Nat.digitChar n)

/-- The digits of a number. -/
def digitsOf (upper : Bool) (b n : Nat) : List UInt8 :=
  if n = 0 then [ch '0'] else ((Nat.digits b n).map (digitChar upper)).reverse

/-- The width: none, a decimal integer, or one that is an argument.  A zero in front would be
a flag. -/
inductive Width
  | absent
  | number (n : Nat) (pos : 0 < n)
  | star
  deriving DecidableEq

def Width.text : Width → List UInt8
  | absent => []
  | number n _ => digitsOf false 10 n
  | star => [ch '*']

/-- A conversion specification. -/
structure Spec where
  flags : List Flag
  width : Width
  length : Option Length
  conv : Conv
  deriving DecidableEq

/-- The modifier of a conversion, if it has one. -/
def lengthText (l : Option Length) : List UInt8 := (l.map Length.text).getD []

/-- A conversion specification behind its `%`. -/
def Spec.text (s : Spec) : List UInt8 :=
  s.flags.map Flag.char ++ (s.width.text ++ (lengthText s.length ++ [s.conv.char]))

/-- A directive. -/
inductive Directive
  | literal (c : UInt8) (ne : c ≠ ch '%')
  | percent
  | conversion (s : Spec)
  deriving DecidableEq

def Directive.text : Directive → List UInt8
  | literal c _ => [c]
  | percent => [ch '%', ch '%']
  | conversion s => ch '%' :: s.text

/-- The characters of a format. -/
def text (ds : List Directive) : List UInt8 := ds.flatMap Directive.text

/-! ## Output -/

/-- The flags and modifiers that the standard defines. -/
structure Spec.Defined (s : Spec) : Prop where
  alt : .alt ∈ s.flags → s.conv = .o ∨ s.conv = .x ∨ s.conv = .X
  zero : .zero ∈ s.flags → s.conv.Numeric
  length : s.length ≠ none → s.conv.Numeric

/-- The bits of the type of an integer. -/
def bitsOf : Option Length → Nat
  | none => 32
  | some .hh => 8
  | some .h => 16
  | some _ => 64

/-- An integer, in the type that the length modifier says. -/
def Spec.convert {w : Nat} (s : Spec) (v : BitVec w) : Int :=
  if s.conv.Signed then (v.setWidth (bitsOf s.length)).toInt
  else (v.setWidth (bitsOf s.length)).toNat

variable {δ : Type}

/-- The integer that a conversion takes. -/
def Spec.value (s : Spec) : Arg δ → Option Int
  | .int v => if bitsOf s.length ≤ 32 then some (s.convert v) else none
  | .long v => if bitsOf s.length = 64 then some (s.convert v) else none
  | _ => none

/-- The characters of a field. -/
def field (left : Bool) (w : Nat) (cs : List UInt8) : List UInt8 :=
  if left then cs ++ List.replicate (w - cs.length) (ch ' ')
  else List.replicate (w - cs.length) (ch ' ') ++ cs

/-- The sign of an integer. -/
def Spec.sign (s : Spec) (z : Int) : List UInt8 :=
  if s.conv.Signed then
    if z < 0 then [ch '-'] else if .plus ∈ s.flags then [ch '+']
    else if .space ∈ s.flags then [ch ' '] else []
  else []

/-- The base that the alternative form shows.  A zero has none: it is a single 0. -/
def Spec.base (s : Spec) (z : Int) : List UInt8 :=
  if .alt ∈ s.flags ∧ z ≠ 0 then
    match s.conv with
    | .x => [ch '0', ch 'x']
    | .X => [ch '0', ch 'X']
    | .o => [ch '0']
    | _ => []
  else []

/-- The digits of an integer. -/
def Spec.digits (s : Spec) (z : Int) : List UInt8 :=
  digitsOf (s.conv == .X) s.conv.base z.natAbs

/-- An integer in a field.  Zeros stand behind the sign and the base, and not in a field that
is adjusted to the left. -/
def Spec.number (s : Spec) (left : Bool) (w : Nat) (z : Int) : List UInt8 :=
  let front := s.sign z ++ s.base z
  if .zero ∈ s.flags ∧ ¬ left then
    front ++ (List.replicate (w - (front ++ s.digits z).length) (ch '0') ++ s.digits z)
  else field left w (front ++ s.digits z)

/-- The characters of a conversion in a field. -/
def Spec.convertTo (s : Spec) (left : Bool) (w : Nat) :
    List (Arg δ) → Option (List UInt8 × List (Arg δ))
  | [] => none
  | a :: args =>
    match s.conv, a with
    | .c, .int v => some (field left w [UInt8.ofBitVec (v.setWidth 8)], args)
    | .s, .string chars => some (field left w chars, args)
    | .c, _ => none
    | .s, _ => none
    | _, a => (s.value a).map fun z => (s.number left w z, args)

instance (s : Spec) : Decidable s.Defined :=
  decidable_of_iff ((.alt ∈ s.flags → s.conv = .o ∨ s.conv = .x ∨ s.conv = .X) ∧
    (.zero ∈ s.flags → s.conv.Numeric) ∧ (s.length ≠ none → s.conv.Numeric))
    ⟨fun h => ⟨h.1, h.2.1, h.2.2⟩, fun h => ⟨h.alt, h.zero, h.length⟩⟩

/-- The characters of a conversion, and the arguments it leaves.  A negative width is the flag
`-` and a positive width. -/
def Spec.print (s : Spec) (args : List (Arg δ)) : Option (List UInt8 × List (Arg δ)) :=
  if s.Defined then
    let left := decide (.minus ∈ s.flags)
    match s.width, args with
    | .absent, args => s.convertTo left 0 args
    | .number n _, args => s.convertTo left n args
    | .star, .int v :: args => s.convertTo (left || decide (v.toInt < 0)) v.toInt.natAbs args
    | .star, _ => none
  else none

/-- The characters of a directive, and the arguments it leaves. -/
def Directive.print (args : List (Arg δ)) : Directive → Option (List UInt8 × List (Arg δ))
  | literal c _ => some ([c], args)
  | percent => some ([ch '%'], args)
  | conversion s => s.print args

/-- The characters of a format, and the arguments it leaves. -/
def print : List Directive → List (Arg δ) → Option (List UInt8 × List (Arg δ))
  | [], args => some ([], args)
  | d :: ds, args => do
    let (cs, args) ← d.print args
    let (cs', args) ← print ds args
    some (cs ++ cs', args)

end Hostboot.Libc.Iso
