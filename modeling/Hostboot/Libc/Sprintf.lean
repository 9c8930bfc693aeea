import Mathlib.Algebra.Group.Nat.Defs
import Mathlib.Data.List.Basic

/-!
# `vasprintf`

The formatted output of `src/lib/sprintf.C`.  A format and a string argument are lists of the
characters in front of the terminator, and `char` is unsigned, as on the processors the code
runs on.  A format is read from behind its `%`.

The result of a directive is what the console gets, call by call, with what the directive adds
to the count.  It is `none` where the code writes behind the 64 characters of a buffer, and
where it takes an argument of another type than the one that is there.
-/

namespace Hostboot.Libc

/-! ## Formats -/

/-- A character of the source. -/
def ch (c : Char) : UInt8 := c.toUInt8

/-- `format_options::flags`. -/
structure Flags where
  ALT_FORM : Bool := false
  ZERO_PAD : Bool := false
  LEFT_ALIGN : Bool := false
  EMPTY_SIGN : Bool := false
  PLUS_SIGN : Bool := false
  deriving DecidableEq, Repr

/-- `format_options::lengths`. -/
inductive Lengths
  | LEN_INT | LEN_CHAR | LEN_SHORT | LEN_LONG | LEN_LONGLONG | LEN_SIZET | LEN_PTRDIFF
  deriving DecidableEq, Repr

/-- `format_options::types`. -/
inductive Types
  | TYPE_PERCENT | TYPE_SIGNED_DECIMAL | TYPE_DECIMAL | TYPE_OCTAL | TYPE_HEX | TYPE_BINARY
  | TYPE_CHAR | TYPE_STRING | TYPE_PTR | TYPE_DOUBLE
  deriving DecidableEq, Repr

/-- `format_options`. -/
structure FormatOptions where
  flags : Flags := {}
  field_width : Nat := 0
  precision : Nat := 0
  length : Lengths := .LEN_INT
  upper : Bool := false
  type : Types := .TYPE_PERCENT
  deriving DecidableEq, Repr

/-- The loop over the flags. -/
def parseFlags (f : Flags) : List UInt8 → Flags × List UInt8
  | [] => (f, [])
  | c :: fmt =>
    if c = ch '#' then parseFlags { f with ALT_FORM := true } fmt
    else if c = ch '0' then parseFlags { f with ZERO_PAD := true } fmt
    else if c = ch '-' then parseFlags { f with LEFT_ALIGN := true } fmt
    else if c = ch ' ' then parseFlags { f with EMPTY_SIGN := true } fmt
    else if c = ch '+' then parseFlags { f with PLUS_SIGN := true } fmt
    else (f, c :: fmt)

def isdigit (c : UInt8) : Bool := decide (ch '0' ≤ c ∧ c ≤ ch '9')

/-- The loops over the digits of a width and of a precision. -/
def parseNumber (n : Nat) : List UInt8 → Nat × List UInt8
  | [] => (n, [])
  | c :: fmt =>
    if isdigit c then parseNumber ((n * 10 + (c - ch '0').toNat) % 2 ^ 64) fmt else (n, c :: fmt)

/-- The precision, if there is one. -/
def parsePrecision : List UInt8 → Nat × List UInt8
  | [] => (0, [])
  | c :: fmt => if c = ch '.' then parseNumber 0 fmt else (0, c :: fmt)

/-- The loop over the length modifiers. -/
def parseLength (l : Lengths) : List UInt8 → Lengths × List UInt8
  | [] => (l, [])
  | c :: fmt =>
    if c = ch 'h' then
      parseLength (if l = .LEN_SHORT ∨ l = .LEN_CHAR then .LEN_CHAR else .LEN_SHORT) fmt
    else if c = ch 'l' then
      parseLength (if l = .LEN_LONG ∨ l = .LEN_LONGLONG then .LEN_LONGLONG else .LEN_LONG) fmt
    else if c = ch 'z' then parseLength .LEN_SIZET fmt
    else if c = ch 't' then parseLength .LEN_PTRDIFF fmt
    else (l, c :: fmt)

/-- The type specifiers, with `upper`. -/
def typeOf (c : UInt8) : Types × Bool :=
  if c = ch 'd' ∨ c = ch 'i' then (.TYPE_SIGNED_DECIMAL, false)
  else if c = ch 'o' then (.TYPE_OCTAL, false)
  else if c = ch 'u' then (.TYPE_DECIMAL, false)
  else if c = ch 'x' then (.TYPE_HEX, false)
  else if c = ch 'X' then (.TYPE_HEX, true)
  else if c = ch 'b' then (.TYPE_BINARY, false)
  else if c = ch 'B' then (.TYPE_BINARY, true)
  else if c = ch 'c' then (.TYPE_CHAR, false)
  else if c = ch 's' then (.TYPE_STRING, false)
  else if c = ch 'p' then (.TYPE_PTR, false)
  else if c = ch 'f' then (.TYPE_DOUBLE, false)
  else (.TYPE_PERCENT, false)

/-- The type specifier.  The terminator is none, and is not skipped. -/
def parseType : List UInt8 → (Types × Bool) × List UInt8
  | [] => ((.TYPE_PERCENT, false), [])
  | c :: fmt => (typeOf c, fmt)

/-- `parse_format_options`, behind the first `%`. -/
def parseFormatOptions (fmt : List UInt8) : FormatOptions × List UInt8 :=
  if fmt = [] ∨ fmt.head? = some (ch '%') then ({}, fmt)
  else
    let (flags, fmt) := parseFlags {} fmt
    let (field_width, fmt) := parseNumber 0 fmt
    let (precision, fmt) := parsePrecision fmt
    let (length, fmt) := parseLength .LEN_INT fmt
    let ((type, upper), fmt) := parseType fmt
    ({ flags, field_width, precision, length, upper, type }, fmt)

/-! ## Directives -/

/-- What the console is called with, and what is counted. -/
structure Printed where
  out : List (BitVec 32)
  count : Nat
  deriving DecidableEq, Repr

namespace Printed

def nothing : Printed := ⟨[], 0⟩

/-- `func(c); ++count;` before the rest. -/
def put (c : BitVec 32) (p : Printed) : Printed := ⟨c :: p.out, p.count + 1⟩

/-- `count += f(func, ..)` before the rest. -/
def append (p q : Printed) : Printed := ⟨p.out ++ q.out, p.count + q.count⟩

end Printed

open Printed

/-- A `char` as an `int`. -/
def charToInt (c : UInt8) : BitVec 32 := c.toBitVec.setWidth 32

/-- The loops over characters. -/
def putChars : List UInt8 → Printed
  | [] => nothing
  | c :: cs => put (charToInt c) (putChars cs)

/-- The loops over the blanks of a header. -/
def putBlanks : Nat → Printed
  | 0 => nothing
  | n + 1 => put (charToInt (ch ' ')) (putBlanks n)

/-- `display_pre_header`. -/
def displayPreHeader (f : FormatOptions) (size : Nat) : Printed :=
  if ¬ f.flags.LEFT_ALIGN ∧ f.field_width ≠ 0 then putBlanks (f.field_width - size) else nothing

/-- `display_post_header`. -/
def displayPostHeader (f : FormatOptions) (size : Nat) : Printed :=
  if f.flags.LEFT_ALIGN ∧ f.field_width ≠ 0 then putBlanks (f.field_width - size) else nothing

def digits : List UInt8 :=
  [ch '0', ch '1', ch '2', ch '3', ch '4', ch '5', ch '6', ch '7', ch '8', ch '9', ch 'a', ch 'b',
    ch 'c', ch 'd', ch 'e', ch 'f']

def digit (n : Nat) : UInt8 := digits.getD n 0

/-- The loop of `convert_number_to_ascii`, with room for some more characters. -/
def convertLoop (i_base : Nat) : Nat → Nat → Option (List UInt8)
  | _, 0 => some []
  | 0, _ + 1 => none
  | room + 1, i_number + 1 =>
    (convertLoop i_base room ((i_number + 1) / i_base)).map
      (digit ((i_number + 1) % i_base) :: ·)

/-- `convert_number_to_ascii`, into an empty buffer: the last digit is the first. -/
def convertNumberToAscii (i_number i_base : Nat) : Option (List UInt8) :=
  if i_number = 0 then some [digit 0] else convertLoop i_base 64 i_number

/-- `while (len < n) output[len++] = digits[0];` -/
def fillZeros (output : List UInt8) (n : Nat) : Option (List UInt8) :=
  if output.length < n ∧ 64 < n then none
  else some (output ++ List.replicate (n - output.length) (digit 0))

def toupper (c : UInt8) : UInt8 := if ch 'a' ≤ c ∧ c ≤ ch 'z' then c &&& ~~~0x20 else c

/-- The sign of a number, which may be none, and its magnitude. -/
def signOf (f : FormatOptions) (number : Nat) : List UInt8 × Nat :=
  if f.type = .TYPE_SIGNED_DECIMAL then
    if 2 ^ 63 ≤ number then ([ch '-'], 2 ^ 64 - number)
    else if f.flags.PLUS_SIGN then ([ch '+'], number)
    else if f.flags.EMPTY_SIGN then ([ch ' '], number)
    else ([], number)
  else ([], number)

/-- The base of a type. -/
def baseOf : Types → Nat
  | .TYPE_BINARY => 2
  | .TYPE_OCTAL => 8
  | .TYPE_HEX => 16
  | .TYPE_PTR => 16
  | _ => 10

/-- `special`. -/
def specialOf (f : FormatOptions) : List UInt8 :=
  if f.flags.ALT_FORM ∨ f.type = .TYPE_PTR then
    match f.type with
    | .TYPE_BINARY => [ch '0', ch 'b']
    | .TYPE_HEX => [ch '0', ch 'x']
    | .TYPE_PTR => [ch '0', ch 'x']
    | .TYPE_OCTAL => [ch '0']
    | _ => []
  else []

/-- `f.upper ? toupper(c) : c`. -/
def caseOf (f : FormatOptions) (c : UInt8) : UInt8 := if f.upper then toupper c else c

/-- `display_string`. -/
def displayString (f : FormatOptions) (string : List UInt8) : Printed :=
  let len := string.length
  (displayPreHeader f len).append ((putChars string).append (displayPostHeader f len))

/-- In `display_number`: the zeros of a field. -/
def zeroPad (f : FormatOptions) (output : List UInt8) (total_len : Nat) : Option (List UInt8) :=
  if f.flags.ZERO_PAD then fillZeros output (output.length + (f.field_width - total_len))
  else some output

/-- `display_number`. -/
def displayNumber (f : FormatOptions) (number : Nat) : Option Printed := do
  let (sign, number) := signOf f number
  let special := specialOf f
  let output ← convertNumberToAscii number (baseOf f.type)
  let output ← fillZeros output f.precision
  let total_len := output.length + sign.length + special.length
  let padded ← zeroPad f output total_len
  let pre := if f.flags.ZERO_PAD then nothing else displayPreHeader f total_len
  let post := if f.flags.ZERO_PAD then nothing else displayPostHeader f total_len
  some (pre.append ((putChars sign).append ((putChars (special.map (caseOf f))).append
    ((putChars (padded.reverse.map (caseOf f))).append post))))

/-! ## The loop over a format -/

/-- The arguments, by the types of which `va_arg` takes them.  An `unsigned long`, a `size_t` and
a `ptrdiff_t` are the same. -/
inductive Arg (δ : Type)
  | int (v : BitVec 32)
  | long (v : BitVec 64)
  | string (chars : List UInt8)
  | ptr (v : BitVec 64)
  | double (v : δ)

variable {δ : Type} (doubleString : δ → List UInt8)

/-- The number of a directive. -/
def takeNumber : Lengths → List (Arg δ) → Option (Nat × List (Arg δ))
  | .LEN_INT, .int v :: args => some (v.toNat, args)
  | .LEN_CHAR, .int v :: args => some (v.toNat, args)
  | .LEN_SHORT, .int v :: args => some (v.toNat, args)
  | .LEN_LONG, .long v :: args => some (v.toNat, args)
  | .LEN_LONGLONG, .long v :: args => some (v.toNat, args)
  | .LEN_SIZET, .long v :: args => some (v.toNat, args)
  | .LEN_PTRDIFF, .long v :: args => some (v.toNat, args)
  | _, _ => none

/-- A directive of `vasprintf`.  What `display_double` makes of a number is a parameter. -/
def directive (f : FormatOptions) (args : List (Arg δ)) : Option (Printed × List (Arg δ)) :=
  match f.type, args with
  | .TYPE_PERCENT, args => some (put (charToInt (ch '%')) nothing, args)
  | .TYPE_PTR, .ptr v :: args =>
    -- the count of this call is not added
    (displayNumber f v.toNat).map fun p => (⟨p.out, 0⟩, args)
  | .TYPE_PTR, _ => none
  | .TYPE_CHAR, .int v :: args =>
    some ((displayPreHeader f 1).append (put v (displayPostHeader f 1)), args)
  | .TYPE_CHAR, _ => none
  | .TYPE_STRING, .string chars :: args => some (displayString f chars, args)
  | .TYPE_STRING, _ => none
  | .TYPE_DOUBLE, .double v :: args => some (displayString f (doubleString v), args)
  | .TYPE_DOUBLE, _ => none
  | _, args => do
    let (number, args) ← takeNumber f.length args
    (displayNumber f number).map fun p => (p, args)

/-- The loop of `vasprintf`, for a number of turns. -/
def vasprintfLoop : Nat → List UInt8 → List (Arg δ) → Option (Printed × List (Arg δ))
  | _, [], args => some (nothing, args)
  | 0, _ :: _, _ => none
  | turns + 1, c :: fmt, args =>
    if c = ch '%' then do
      let (f, fmt) := parseFormatOptions fmt
      let (p, args) ← directive doubleString f args
      let (q, args) ← vasprintfLoop turns fmt args
      some (p.append q, args)
    else do
      let (q, args) ← vasprintfLoop turns fmt args
      some (put (charToInt c) q, args)

/-- `vasprintf`: every turn takes a character of the format, so there are enough turns. -/
def vasprintf (fmt : List UInt8) (args : List (Arg δ)) : Option (Printed × List (Arg δ)) :=
  vasprintfLoop doubleString fmt.length fmt args

/-- What `vasprintf` returns: its `int count`, as a `size_t`. -/
def Printed.returned (p : Printed) : BitVec 64 := (BitVec.ofNat 32 p.count).signExtend 64

end Hostboot.Libc
