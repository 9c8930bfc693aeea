import Hostboot.Libc.IsoPrintf
import Mathlib.Data.Nat.Digits.Lemmas

/-!
# The directives that the parser reads

`parse_format_options` on the characters of a conversion specification.  It finds the flags, the
width and the length modifier of every specification but two kinds (`parse_spec`).  It does not
know the width `*` and the modifier `j`, which it takes for a type, and the type for a `%`
(`parse_star`, `parse_j`).
-/

namespace Hostboot.Libc.Iso

open Hostboot.Libc List

variable {f : Flags} {fmt rest : List UInt8} {n : Nat}

/-! ## Flags -/

/-- A character that is no flag. -/
def NotFlag (c : UInt8) : Prop :=
  c ≠ ch '#' ∧ c ≠ ch '0' ∧ c ≠ ch '-' ∧ c ≠ ch ' ' ∧ c ≠ ch '+'

instance (c : UInt8) : Decidable (NotFlag c) := inferInstanceAs (Decidable (_ ∧ _))

/-- The flags of a list added to others. -/
def addFlags (f : Flags) (fl : List Flag) : Flags :=
  ⟨f.ALT_FORM || decide (.alt ∈ fl), f.ZERO_PAD || decide (.zero ∈ fl),
    f.LEFT_ALIGN || decide (.minus ∈ fl), f.EMPTY_SIGN || decide (.space ∈ fl),
    f.PLUS_SIGN || decide (.plus ∈ fl)⟩

theorem parseFlags_stop {c : UInt8} (hc : NotFlag c) :
    parseFlags f (c :: fmt) = (f, c :: fmt) := by
  obtain ⟨h1, h2, h3, h4, h5⟩ := hc
  rw [parseFlags, if_neg h1, if_neg h2, if_neg h3, if_neg h4, if_neg h5]

theorem parseFlags_cons (a : Flag) :
    parseFlags f (a.char :: fmt) = parseFlags (addFlags f [a]) fmt := by
  cases a <;> simp +decide [parseFlags, addFlags]

theorem addFlags_addFlags (a : Flag) (fl : List Flag) :
    addFlags (addFlags f [a]) fl = addFlags f (a :: fl) := by
  simp [addFlags, Bool.or_assoc]

theorem parseFlags_text {c : UInt8} (hc : NotFlag c) (fl : List Flag) :
    parseFlags f (fl.map Flag.char ++ c :: fmt) = (addFlags f fl, c :: fmt) := by
  induction fl generalizing f with
  | nil =>
    rw [map_nil, nil_append, parseFlags_stop hc]
    simp [addFlags]
  | cons a fl ih => rw [map_cons, cons_append, parseFlags_cons, ih, addFlags_addFlags]

/-! ## Widths -/

theorem isdigit_digitChar : ∀ d, d < 10 → isdigit (digitChar false d) = true ∧
    (digitChar false d - ch '0').toNat = d ∧ (d ≠ 0 → NotFlag (digitChar false d)) ∧
      digitChar false d ≠ ch '%' := by
  decide

theorem parseNumber_stop {c : UInt8} (hc : isdigit c = false) :
    parseNumber n (c :: fmt) = (n, c :: fmt) := by
  rw [parseNumber, hc]
  rfl

theorem parseNumber_text {c : UInt8} (hc : isdigit c = false) {ds : List Nat}
    (hds : ∀ d ∈ ds, d < 10) :
    parseNumber (n % 2 ^ 64) (ds.map (digitChar false) ++ c :: fmt) =
      (ds.foldl (fun a d => a * 10 + d) n % 2 ^ 64, c :: fmt) := by
  induction ds generalizing n with
  | nil => exact parseNumber_stop hc
  | cons d ds ih =>
    obtain ⟨hdigit, hvalue, -⟩ := isdigit_digitChar d (hds d mem_cons_self)
    have hmod : (n % 2 ^ 64 * 10 + d) % 2 ^ 64 = (n * 10 + d) % 2 ^ 64 := by omega
    rw [map_cons, cons_append, parseNumber, if_pos hdigit, hvalue, hmod,
      ih fun x hx => hds x (mem_cons_of_mem d hx), foldl_cons]

theorem foldl_digits (b n : Nat) :
    (Nat.digits b n).reverse.foldl (fun a d => a * b + d) 0 = n := by
  have hstep : (fun x y => y * b + x) = fun (x y : Nat) => x + b * y := by
    funext x y
    rw [Nat.mul_comm, Nat.add_comm]
  rw [foldl_reverse, hstep]
  exact (Nat.ofDigits_eq_foldr b (Nat.digits b n)).symm.trans (Nat.ofDigits_digits b n)

theorem parseNumber_digitsOf {c : UInt8} (hc : isdigit c = false) (hn : 0 < n) :
    parseNumber 0 (digitsOf false 10 n ++ c :: fmt) = (n % 2 ^ 64, c :: fmt) := by
  have hdigits : ∀ d ∈ (Nat.digits 10 n).reverse, d < 10 := fun d hd =>
    Nat.digits_lt_base (by decide) (mem_reverse.mp hd)
  have hparse := @parseNumber_text fmt 0 c hc _ hdigits
  rw [foldl_digits, Nat.zero_mod] at hparse
  rw [digitsOf, if_neg (Nat.ne_of_gt hn), ← map_reverse]
  exact hparse

theorem digitsOf_head (hn : 0 < n) : ∃ d ds, d < 10 ∧ d ≠ 0 ∧
    digitsOf false 10 n = digitChar false d :: ds := by
  have hne : Nat.digits 10 n ≠ [] := Nat.digits_ne_nil_iff_ne_zero.mpr (Nat.ne_of_gt hn)
  refine ⟨(Nat.digits 10 n).getLast hne, ((Nat.digits 10 n).dropLast.map (digitChar false)).reverse,
    Nat.digits_lt_base (by decide) (getLast_mem hne),
    Nat.getLast_digit_ne_zero 10 (Nat.ne_of_gt hn), ?_⟩
  have hlast := congrArg (fun ds => (ds.map (digitChar false)).reverse)
    (dropLast_append_getLast hne)
  rw [digitsOf, if_neg (Nat.ne_of_gt hn), ← hlast]
  simp

/-! ## Specifications -/

/-- The width that the parser finds. -/
def Width.parsed : Width → Nat
  | .number n _ => n % 2 ^ 64
  | _ => 0

/-- A character that ends the flags, the width and the precision. -/
structure Plain (c : UInt8) : Prop where
  not_flag : NotFlag c
  not_digit : isdigit c = false
  ne_dot : c ≠ ch '.'
  ne_percent : c ≠ ch '%'

instance (c : UInt8) : Decidable (Plain c) :=
  decidable_of_iff (NotFlag c ∧ isdigit c = false ∧ c ≠ ch '.' ∧ c ≠ ch '%')
    ⟨fun h => ⟨h.1, h.2.1, h.2.2.1, h.2.2.2⟩,
      fun h => ⟨h.not_flag, h.not_digit, h.ne_dot, h.ne_percent⟩⟩

theorem Flag.char_ne_percent (a : Flag) : a.char ≠ ch '%' := by
  cases a <;> decide

theorem parse_front {c : UInt8} (hc : Plain c) (fl : List Flag) {w : Width} (hw : w ≠ .star) :
    parseFormatOptions (fl.map Flag.char ++ (w.text ++ c :: fmt)) =
      ({ flags := addFlags {} fl, field_width := w.parsed
         length := (parseLength .LEN_INT (c :: fmt)).1
         type := (parseType (parseLength .LEN_INT (c :: fmt)).2).1.1
         upper := (parseType (parseLength .LEN_INT (c :: fmt)).2).1.2 },
        (parseType (parseLength .LEN_INT (c :: fmt)).2).2) := by
  -- the width starts with no flag either
  obtain ⟨c', fmt', hcons, hflag, hpercent, hnumber⟩ : ∃ c' fmt', w.text ++ c :: fmt = c' :: fmt' ∧
      NotFlag c' ∧ c' ≠ ch '%' ∧ parseNumber 0 (c' :: fmt') = (w.parsed, c :: fmt) := by
    cases w with
    | absent => exact ⟨c, fmt, rfl, hc.not_flag, hc.ne_percent, parseNumber_stop hc.not_digit⟩
    | number n pos =>
      obtain ⟨d, ds, hd, hzero, hhead⟩ := digitsOf_head pos
      obtain ⟨-, -, hflag, hpercent⟩ := isdigit_digitChar d hd
      refine ⟨digitChar false d, ds ++ c :: fmt, ?_, hflag hzero, hpercent, ?_⟩
      · rw [Width.text, hhead, cons_append]
      · rw [← cons_append, ← hhead]
        exact parseNumber_digitsOf hc.not_digit pos
    | star => exact absurd rfl hw
  have hfront : ¬ (fl.map Flag.char ++ c' :: fmt' = [] ∨
      (fl.map Flag.char ++ c' :: fmt').head? = some (ch '%')) := by
    cases fl with
    | nil => simpa using hpercent
    | cons a fl => simpa using a.char_ne_percent
  have hprecision : parsePrecision (c :: fmt) = (0, c :: fmt) := by
    rw [parsePrecision, if_neg hc.ne_dot]
  rw [hcons, parseFormatOptions, if_neg hfront, parseFlags_text hflag]
  dsimp only
  rw [hnumber]
  dsimp only
  rw [hprecision]

/-- The modifier that the parser finds. -/
def lengthOf : Option Length → Lengths
  | none => .LEN_INT
  | some .hh => .LEN_CHAR
  | some .h => .LEN_SHORT
  | some .l => .LEN_LONG
  | some .ll => .LEN_LONGLONG
  | some .j => .LEN_INT
  | some .z => .LEN_SIZET
  | some .t => .LEN_PTRDIFF

theorem parseLength_text {len : Option Length} (hl : len ≠ some .j) (v : Conv) :
    parseLength .LEN_INT (lengthText len ++ v.char :: fmt) = (lengthOf len, v.char :: fmt) := by
  cases len with
  | none => cases v <;> rfl
  | some len =>
    cases len with
    | j => exact absurd rfl hl
    | _ => cases v <;> rfl

/-- What the parser makes of a specification. -/
def Spec.options (s : Spec) : FormatOptions where
  flags := addFlags {} s.flags
  field_width := s.width.parsed
  length := lengthOf s.length
  type := (typeOf s.conv.char).1
  upper := (typeOf s.conv.char).2

theorem length_conv_plain (len : Option Length) (v : Conv) :
    ∃ c fmt, lengthText len ++ [v.char] = c :: fmt ∧ Plain c := by
  cases len with
  | none => exact ⟨v.char, [], rfl, by cases v <;> decide⟩
  | some len => cases len <;> exact ⟨_, _, rfl, by decide⟩

theorem parse_spec {s : Spec} (hw : s.width ≠ .star) (hl : s.length ≠ some .j) :
    parseFormatOptions (s.text ++ fmt) = (s.options, fmt) := by
  obtain ⟨c, fmt', hcons, hplain⟩ := length_conv_plain s.length s.conv
  have htext : s.text ++ fmt = s.flags.map Flag.char ++ (s.width.text ++ c :: (fmt' ++ fmt)) := by
    rw [Spec.text, hcons]
    simp
  have hlength : c :: (fmt' ++ fmt) = lengthText s.length ++ s.conv.char :: fmt := by
    rw [← cons_append, ← hcons, append_assoc]
    rfl
  rw [htext, parse_front hplain s.flags hw, hlength, parseLength_text hl]
  rfl

variable (fmt) in
/-- The width `*` is taken for a type, and the rest of the specification is left. -/
theorem parse_star {s : Spec} (hw : s.width = .star) : ∃ f : FormatOptions,
    f.type = .TYPE_PERCENT ∧
      parseFormatOptions (s.text ++ fmt) = (f, lengthText s.length ++ (s.conv.char :: fmt)) := by
  have htext : s.text ++ fmt = s.flags.map Flag.char ++
      (Width.absent.text ++ ch '*' :: (lengthText s.length ++ (s.conv.char :: fmt))) := by
    rw [Spec.text, hw]
    simp [Width.text]
  rw [htext, parse_front (by decide) s.flags (by decide)]
  exact ⟨_, rfl, rfl⟩

variable (fmt) in
theorem parse_j {s : Spec} (hw : s.width ≠ .star) (hl : s.length = some .j) :
    ∃ f : FormatOptions, f.type = .TYPE_PERCENT ∧
      parseFormatOptions (s.text ++ fmt) = (f, s.conv.char :: fmt) := by
  have htext : s.text ++ fmt = s.flags.map Flag.char ++
      (s.width.text ++ ch 'j' :: (s.conv.char :: fmt)) := by
    rw [Spec.text, hl]
    simp [lengthText, Length.text]
  rw [htext, parse_front (by decide) s.flags hw]
  exact ⟨_, rfl, rfl⟩

end Hostboot.Libc.Iso
