import Hostboot.Libc.PrintfOutput

/-!
# `vasprintf` and the standard

A directive that the parser knows writes what the standard says exactly when it is `Right`.
The others are wrong: `%%`, of which the second `%` is read as the start of a directive, and
specifications with the width `*` or the modifier `j`.  So a format and all the formats that it
starts with come out right exactly when all directives are right (`vasprintf_iso_iff`).
-/

namespace Hostboot.Libc

open List

/-! ## Turns -/

theorem parseFlags_length (f : Flags) (fmt : List UInt8) :
    (parseFlags f fmt).2.length ≤ fmt.length := by
  induction fmt generalizing f with
  | nil => exact Nat.le_refl _
  | cons c fmt ih =>
    unfold parseFlags
    split_ifs
    any_goals exact (ih _).trans (Nat.le_succ _)
    exact Nat.le_refl _

theorem parseNumber_length (n : Nat) (fmt : List UInt8) :
    (parseNumber n fmt).2.length ≤ fmt.length := by
  induction fmt generalizing n with
  | nil => exact Nat.le_refl _
  | cons c fmt ih =>
    unfold parseNumber
    split_ifs
    · exact (ih _).trans (Nat.le_succ _)
    · exact Nat.le_refl _

theorem parsePrecision_length (fmt : List UInt8) :
    (parsePrecision fmt).2.length ≤ fmt.length := by
  cases fmt with
  | nil => exact Nat.le_refl _
  | cons c fmt =>
    rw [parsePrecision]
    split_ifs
    · exact (parseNumber_length 0 fmt).trans (Nat.le_succ _)
    · exact Nat.le_refl _

theorem parseLength_length (len : Lengths) (fmt : List UInt8) :
    (parseLength len fmt).2.length ≤ fmt.length := by
  induction fmt generalizing len with
  | nil => exact Nat.le_refl _
  | cons c fmt ih =>
    unfold parseLength
    split_ifs
    any_goals exact (ih _).trans (Nat.le_succ _)
    exact Nat.le_refl _

theorem parseType_length (fmt : List UInt8) : (parseType fmt).2.length ≤ fmt.length := by
  cases fmt with
  | nil => exact Nat.le_refl _
  | cons c fmt => exact Nat.le_succ _

theorem parseFormatOptions_length (fmt : List UInt8) :
    (parseFormatOptions fmt).2.length ≤ fmt.length := by
  unfold parseFormatOptions
  split
  · exact Nat.le_refl _
  · exact (parseType_length _).trans ((parseLength_length _ _).trans
      ((parsePrecision_length _).trans ((parseNumber_length _ _).trans (parseFlags_length _ _))))

variable {δ : Type} {doubleString : δ → List UInt8} {fmt : List UInt8} {args left : List (Arg δ)}

theorem vasprintfLoop_turns {turns turns' : Nat} (h : fmt.length ≤ turns)
    (h' : fmt.length ≤ turns') :
    vasprintfLoop doubleString turns fmt args = vasprintfLoop doubleString turns' fmt args := by
  induction turns generalizing turns' fmt args with
  | zero =>
    obtain rfl := eq_nil_of_length_eq_zero (Nat.eq_zero_of_le_zero h)
    rw [vasprintfLoop, vasprintfLoop]
  | succ turns ih =>
    cases fmt with
    | nil => rw [vasprintfLoop, vasprintfLoop]
    | cons c fmt =>
      cases turns' with
      | zero => exact absurd h' (Nat.not_succ_le_zero _)
      | succ turns' =>
        have hfmt := Nat.le_of_succ_le_succ h
        have hfmt' := Nat.le_of_succ_le_succ h'
        have hparse := parseFormatOptions_length fmt
        rw [vasprintfLoop, vasprintfLoop]
        generalize parseFormatOptions fmt = parsed at hparse
        obtain ⟨f, rest⟩ := parsed
        split_ifs
        · refine congrArg (Option.bind _) (funext fun r => ?_)
          dsimp only at hparse ⊢
          rw [ih (hparse.trans hfmt) (hparse.trans hfmt')]
        · rw [ih hfmt hfmt']

theorem vasprintf_percent (fmt : List UInt8) (args : List (Arg δ)) :
    vasprintf doubleString (ch '%' :: fmt) args =
      (directive doubleString (parseFormatOptions fmt).1 args).bind fun r =>
        (vasprintf doubleString (parseFormatOptions fmt).2 r.2).map fun r' =>
          (r.1.append r'.1, r'.2) := by
  unfold vasprintf
  have hparse := parseFormatOptions_length fmt
  rw [length_cons, vasprintfLoop, if_pos rfl]
  generalize parseFormatOptions fmt = parsed at hparse
  obtain ⟨f, rest⟩ := parsed
  refine congrArg (Option.bind _) (funext fun r => ?_)
  dsimp only
  rw [vasprintfLoop_turns hparse (Nat.le_refl _)]
  cases vasprintfLoop doubleString rest.length rest r.2 <;> rfl

theorem vasprintf_char {c : UInt8} (hc : c ≠ ch '%') (fmt : List UInt8) (args : List (Arg δ)) :
    vasprintf doubleString (c :: fmt) args =
      (vasprintf doubleString fmt args).map fun r => (Printed.put (charToInt c) r.1, r.2) := by
  unfold vasprintf
  rw [length_cons, vasprintfLoop, if_neg hc]
  cases vasprintfLoop doubleString fmt.length fmt args <;> rfl

/-! ## Directives -/

/-- The bits of an integer argument. -/
def Arg.raw : Arg δ → Nat
  | .int v => v.toNat
  | .long v => v.toNat
  | _ => 0

namespace Iso

/-- The width that a specification gives. -/
def Width.size : Width → Nat
  | .number n _ => n
  | _ => 0

/-- A specification that the code knows comes out right: its width fits into 64 bits, or makes
no difference, an argument that is an `int` has the same value as an `unsigned int`, and the
flags are right. -/
def Spec.Right (s : Spec) : List (Arg δ) → Prop
  | [] => False
  | a :: _ =>
    match s.conv, a with
    | .c, _ => s.width.size < 2 ^ 64 ∨ s.width.size ≤ 1
    | .s, .string chars => s.width.size < 2 ^ 64 ∨ s.width.size ≤ chars.length
    | .s, _ => False
    | _, a => s.width.size < 2 ^ 64 ∧ (bitsOf s.length ≤ 32 → s.value a = some (a.raw : Int)) ∧
        ∀ z, s.value a = some z → s.Exact s.width.size z

variable {s : Spec} {a : Arg δ} {w : Nat} {z : Int} {cs : List UInt8}

theorem parsed_eq (h : s.width ≠ .star) : s.width.parsed = s.width.size % 2 ^ 64 := by
  cases hw : s.width with
  | absent => rfl
  | number n pos => rfl
  | star => exact absurd hw h

theorem print_of_ne_star (h : s.width ≠ .star) (hprint : s.print args = some (cs, left)) :
    s.Defined ∧ s.convertTo (decide (.minus ∈ s.flags)) s.width.size args = some (cs, left) := by
  unfold Spec.print at hprint
  split at hprint
  · rename_i hdefined
    refine ⟨hdefined, ?_⟩
    dsimp only at hprint
    cases hw : s.width with
    | absent =>
      rw [hw] at hprint
      exact hprint
    | number n pos =>
      rw [hw] at hprint
      exact hprint
    | star => exact absurd hw h
  · exact absurd hprint.symm (Option.some_ne_none _)

theorem value_int {v : BitVec 32} (h : s.value (.int v : Arg δ) = some z) :
    bitsOf s.length ≤ 32 ∧ s.convert v = z := by
  rw [Spec.value] at h
  obtain ⟨hbits, hz⟩ := Option.ite_none_right_eq_some.mp h
  exact ⟨hbits, Option.some.inj hz⟩

theorem value_long {v : BitVec 64} (h : s.value (.long v : Arg δ) = some z) :
    bitsOf s.length = 64 ∧ s.convert v = z := by
  rw [Spec.value] at h
  obtain ⟨hbits, hz⟩ := Option.ite_none_right_eq_some.mp h
  exact ⟨hbits, Option.some.inj hz⟩

theorem takeNumber_value (hj : s.length ≠ some .j) (hvalue : s.value a = some z) :
    takeNumber (lengthOf s.length) (a :: left) = some (a.raw, left) := by
  cases a with
  | int v =>
    obtain ⟨hbits, -⟩ := value_int hvalue
    rcases hlen : s.length with - | len
    · rfl
    · rw [hlen] at hbits
      cases len with
      | hh => rfl
      | h => rfl
      | _ => exact absurd hbits (by decide)
  | long v =>
    obtain ⟨hbits, -⟩ := value_long hvalue
    rcases hlen : s.length with - | len
    · rw [hlen] at hbits
      exact absurd hbits (by decide)
    · rw [hlen] at hbits hj
      cases len with
      | hh => exact absurd hbits (by decide)
      | h => exact absurd hbits (by decide)
      | j => exact absurd rfl hj
      | _ => rfl
  | _ => exact absurd hvalue.symm (Option.some_ne_none _)

theorem raw_lt (a : Arg δ) : a.raw < 2 ^ 64 := by
  cases a with
  | int v => exact v.isLt.trans (by decide)
  | long v => exact v.isLt
  | _ => exact Nat.two_pow_pos 64

/-- The integer that `display_number` shows, for an argument of 64 bits, and for one of 32. -/
theorem taken_raw (hvalue : s.value a = some z) :
    (¬ bitsOf s.length ≤ 32 ∧ s.taken a.raw = z) ∨
      (bitsOf s.length ≤ 32 ∧ s.taken a.raw = a.raw) := by
  cases a with
  | int v =>
    refine Or.inr ⟨(value_int hvalue).1, taken_of_not_neg fun h => ?_⟩
    have hlt : v.toNat < 2 ^ 32 := v.isLt
    have hle : 2 ^ 63 ≤ v.toNat := h.2
    omega
  | long v =>
    obtain ⟨hbits, hz⟩ := value_long hvalue
    refine Or.inl ⟨by omega, ?_⟩
    rw [← hz]
    unfold Spec.convert Spec.taken
    rw [hbits, BitVec.setWidth_eq]
    show (if s.conv.Signed ∧ 2 ^ 63 ≤ v.toNat then (v.toNat : Int) - 2 ^ 64 else (v.toNat : Int)) = _
    have htoInt := BitVec.toInt_eq_toNat_cond v
    by_cases hsigned : s.conv.Signed
    · rw [if_pos hsigned, htoInt]
      by_cases hneg : 2 ^ 63 ≤ v.toNat
      · rw [if_pos ⟨hsigned, hneg⟩, if_neg (by omega)]
        rfl
      · rw [if_neg fun h => hneg h.2, if_pos (by omega)]
    · rw [if_neg hsigned, if_neg fun h => hsigned h.1]
  | _ => exact absurd hvalue.symm (Option.some_ne_none _)

theorem signed_of_neg (hvalue : s.value a = some z) (hz : z < 0) : s.conv.Signed := by
  by_contra hnot
  have hconvert : ∀ {n : Nat} (v : BitVec n), 0 ≤ s.convert v := by
    intro n v
    unfold Spec.convert
    rw [if_neg hnot]
    exact Int.natCast_nonneg _
  cases a with
  | int v =>
    have heq := (value_int hvalue).2
    have hle := hconvert v
    omega
  | long v =>
    have heq := (value_long hvalue).2
    have hle := hconvert v
    omega
  | _ => exact absurd hvalue.symm (Option.some_ne_none _)

theorem written_right (hdefined : s.Defined) (hvalue : s.value a = some z) :
    s.written (w % 2 ^ 64) (s.taken a.raw) =
        some (s.number (decide (.minus ∈ s.flags)) w z) ↔
      w < 2 ^ 64 ∧ (bitsOf s.length ≤ 32 → s.value a = some (a.raw : Int)) ∧
        ∀ z, s.value a = some z → s.Exact w z := by
  have hlen : (s.digits (s.taken a.raw)).length ≤ 64 := by
    have habs : (s.taken a.raw).natAbs < 2 ^ 64 := natAbs_taken_lt (raw_lt a)
    obtain ⟨output, -, hlen, hroom, -⟩ := convert_options (s := s) habs
    omega
  by_cases hw : w < 2 ^ 64
  · rw [Nat.mod_eq_of_lt hw]
    have hexact : (∀ z', s.value a = some z' → s.Exact w z') ↔ s.Exact w z :=
      ⟨fun h => h z hvalue, fun h z' hz' => by
        rw [← Option.some.inj (hvalue.symm.trans hz')]
        exact h⟩
    rw [hexact]
    rcases taken_raw hvalue with ⟨hbits, htaken⟩ | ⟨hbits, htaken⟩
    · rw [htaken] at hlen ⊢
      rw [written_eq_iff hdefined hlen]
      exact ⟨fun h => ⟨hw, fun hle => absurd hle hbits, h⟩, fun h => h.2.2⟩
    · rw [htaken] at hlen ⊢
      by_cases heq : z = a.raw
      · rw [heq, written_eq_iff hdefined hlen]
        exact ⟨fun h => ⟨hw, fun _ => by rw [hvalue, heq], h⟩, fun h => h.2.2⟩
      · refine iff_of_false (written_ne (Int.natCast_nonneg _) (fun h => heq h.symm)
          (signed_of_neg hvalue)) fun h => heq ?_
        exact Option.some.inj (hvalue.symm.trans (h.2.1 hbits))
  · exact iff_of_false (written_mod_ne (Nat.le_of_not_lt hw) hlen) fun h => hw h.1

theorem directive_number (h : s.conv.Numeric) : directive doubleString s.options args =
    (takeNumber (lengthOf s.length) args).bind fun r =>
      (displayNumber s.options r.1).map fun p => (p, r.2) := by
  have hlength : s.options.length = lengthOf s.length := rfl
  unfold directive
  rw [options_type, hlength]
  obtain ⟨hc, hs⟩ := h
  cases hconv : s.conv with
  | c => exact absurd hconv hc
  | s => exact absurd hconv hs
  | _ => rfl

theorem convertTo_number {minus : Bool} (h : s.conv.Numeric) :
    s.convertTo minus w (a :: args) = (s.value a).map fun z => (s.number minus w z, args) := by
  unfold Spec.convertTo
  obtain ⟨hc, hs⟩ := h
  cases hconv : s.conv with
  | c => exact absurd hconv hc
  | s => exact absurd hconv hs
  | _ => rfl

theorem right_number (h : s.conv.Numeric) : s.Right (a :: args) ↔
    s.width.size < 2 ^ 64 ∧ (bitsOf s.length ≤ 32 → s.value a = some (a.raw : Int)) ∧
      ∀ z, s.value a = some z → s.Exact s.width.size z := by
  unfold Spec.Right
  obtain ⟨hc, hs⟩ := h
  cases hconv : s.conv with
  | c => exact absurd hconv hc
  | s => exact absurd hconv hs
  | _ => exact Iff.rfl

theorem directive_spec_number (hw : s.width ≠ .star) (hj : s.length ≠ some .j)
    (hnumeric : s.conv.Numeric) (hprint : s.print args = some (cs, left)) :
    ∃ r : Option Printed, directive doubleString s.options args = r.map (fun p => (p, left)) ∧
      (r.map Printed.chars = some cs ↔ s.Right args) := by
  obtain ⟨hdefined, hprint⟩ := print_of_ne_star hw hprint
  cases args with
  | nil => exact absurd hprint.symm (Option.some_ne_none _)
  | cons a args =>
    rw [convertTo_number hnumeric] at hprint
    obtain ⟨z, hz, heq⟩ := Option.map_eq_some_iff.mp hprint
    obtain ⟨rfl, rfl⟩ := Prod.mk.inj heq
    rw [directive_number hnumeric, takeNumber_value hj hz, Option.bind_some,
      displayNumber_options (raw_lt a), right_number hnumeric, ← written_right hdefined hz,
      parsed_eq hw]
    refine ⟨_, rfl, ?_⟩
    rw [Option.map_map]
    have hchars : Printed.chars ∘ ofChars = id := funext chars_ofChars
    rw [hchars, Option.map_id_fun, id]

theorem directive_spec_char (hw : s.width ≠ .star) (hc : s.conv = .c)
    (hprint : s.print args = some (cs, left)) :
    ∃ r : Option Printed, directive doubleString s.options args = r.map (fun p => (p, left)) ∧
      (r.map Printed.chars = some cs ↔ s.Right args) := by
  obtain ⟨-, hprint⟩ := print_of_ne_star hw hprint
  have htype : s.options.type = .TYPE_CHAR := by rw [options_type, hc]; rfl
  have hwidth : s.options.field_width = s.width.size % 2 ^ 64 := parsed_eq hw
  unfold directive Spec.Right
  rw [htype, hc]
  rcases args with - | ⟨a, args⟩
  · exact absurd hprint.symm (Option.some_ne_none _)
  · unfold Spec.convertTo at hprint
    rw [hc] at hprint
    cases a with
    | int v =>
      obtain ⟨rfl, rfl⟩ := Prod.mk.inj (Option.some.inj hprint)
      refine ⟨some ((displayPreHeader s.options 1).append
        (Printed.put v (displayPostHeader s.options 1))), rfl, ?_⟩
      rw [Option.map_some, displayChar_chars, options_left, hwidth, Option.some_inj]
      exact field_mod_eq_iff _ _ _
    | _ => exact absurd hprint.symm (Option.some_ne_none _)

theorem directive_spec_string (hw : s.width ≠ .star) (hs : s.conv = .s)
    (hprint : s.print args = some (cs, left)) :
    ∃ r : Option Printed, directive doubleString s.options args = r.map (fun p => (p, left)) ∧
      (r.map Printed.chars = some cs ↔ s.Right args) := by
  obtain ⟨-, hprint⟩ := print_of_ne_star hw hprint
  have htype : s.options.type = .TYPE_STRING := by rw [options_type, hs]; rfl
  have hwidth : s.options.field_width = s.width.size % 2 ^ 64 := parsed_eq hw
  unfold directive Spec.Right
  rw [htype, hs]
  rcases args with - | ⟨a, args⟩
  · exact absurd hprint.symm (Option.some_ne_none _)
  · unfold Spec.convertTo at hprint
    rw [hs] at hprint
    cases a with
    | string chars =>
      obtain ⟨rfl, rfl⟩ := Prod.mk.inj (Option.some.inj hprint)
      refine ⟨some (displayString s.options chars), rfl, ?_⟩
      rw [Option.map_some, displayString_eq, chars_ofChars, options_left, hwidth, Option.some_inj]
      exact field_mod_eq_iff _ _ _
    | _ => exact absurd hprint.symm (Option.some_ne_none _)

variable (doubleString) in
/-- A specification that the code knows takes the arguments that it should, and writes what it
should exactly when it is right. -/
theorem directive_spec (hw : s.width ≠ .star) (hj : s.length ≠ some .j)
    (hprint : s.print args = some (cs, left)) :
    ∃ r : Option Printed, directive doubleString s.options args = r.map (fun p => (p, left)) ∧
      (r.map Printed.chars = some cs ↔ s.Right args) := by
  by_cases hc : s.conv = .c
  · exact directive_spec_char hw hc hprint
  · by_cases hs : s.conv = .s
    · exact directive_spec_string hw hs hprint
    · exact directive_spec_number hw hj ⟨hc, hs⟩ hprint

/-! ## Formats -/

/-- A directive comes out right. -/
def Directive.Right (args : List (Arg δ)) : Directive → Prop
  | literal _ _ => True
  | percent => False
  | conversion s => s.width ≠ .star ∧ s.length ≠ some .j ∧ s.Right args

/-- The directives of a format are right, each with the arguments that are left for it. -/
def AllRight : List Directive → List (Arg δ) → Prop
  | [], _ => True
  | d :: ds, args => d.Right args ∧ ∀ cs left, d.print args = some (cs, left) → AllRight ds left

variable {d : Directive} {ds : List Directive}

/-- The code prints a format as the standard says, and takes the same arguments. -/
def Prints (doubleString : δ → List UInt8) (ds : List Directive) (args : List (Arg δ)) : Prop :=
  ∃ p left, vasprintf doubleString (text ds) args = some (p, left) ∧
    print ds args = some (p.chars, left)

theorem text_cons (d : Directive) (ds : List Directive) : text (d :: ds) = d.text ++ text ds := rfl

variable (doubleString fmt) in
theorem vasprintf_right (hright : d.Right args) (hprint : d.print args = some (cs, left)) :
    ∃ p : Printed, p.chars = cs ∧ vasprintf doubleString (d.text ++ fmt) args =
      (vasprintf doubleString fmt left).map fun r => (p.append r.1, r.2) := by
  cases d with
  | literal c hc =>
    obtain ⟨rfl, rfl⟩ := Prod.mk.inj (Option.some.inj hprint)
    refine ⟨ofChars [c], chars_ofChars [c], ?_⟩
    show vasprintf doubleString (c :: fmt) args = _
    rw [vasprintf_char hc]
    refine congrArg (Option.map · _) (funext fun r => ?_)
    rw [put_charToInt]
  | percent => exact absurd hright id
  | conversion s =>
    obtain ⟨hw, hj, hright⟩ := hright
    obtain ⟨r, hdirective, hiff⟩ := directive_spec doubleString hw hj hprint
    obtain ⟨p, rfl, hchars⟩ := Option.map_eq_some_iff.mp (hiff.mpr hright)
    refine ⟨p, hchars, ?_⟩
    show vasprintf doubleString (ch '%' :: (s.text ++ fmt)) args = _
    rw [vasprintf_percent, parse_spec hw hj, hdirective]
    rfl

theorem prints_cons (hright : d.Right args) (hprint : d.print args = some (cs, left)) :
    Prints doubleString (d :: ds) args ↔ Prints doubleString ds left := by
  obtain ⟨p, rfl, hp⟩ := vasprintf_right doubleString (text ds) hright hprint
  have hprints : print (d :: ds) args =
      (print ds left).map fun r => (p.chars ++ r.1, r.2) := by
    show (d.print args).bind _ = _
    rw [hprint, Option.bind_some]
    dsimp only
    cases print ds left <;> rfl
  unfold Prints
  rw [text_cons, hp, hprints]
  constructor
  · rintro ⟨q, rest, hrun, hiso⟩
    obtain ⟨⟨q', rest'⟩, hrun', heq⟩ := Option.map_eq_some_iff.mp hrun
    obtain ⟨⟨cs', rest''⟩, hiso', heq'⟩ := Option.map_eq_some_iff.mp hiso
    obtain ⟨rfl, rfl⟩ := Prod.mk.inj heq
    obtain ⟨hchars, rfl⟩ := Prod.mk.inj heq'
    rw [chars_append] at hchars
    have hcs : cs' = q'.chars := append_cancel_left hchars
    rw [hcs] at hiso'
    exact ⟨q', rest'', hrun', hiso'⟩
  · rintro ⟨q, rest, hrun, hiso⟩
    exact ⟨p.append q, rest, by rw [hrun]; rfl, by rw [hiso, chars_append]; rfl⟩

theorem prints_nil (args : List (Arg δ)) : Prints doubleString [] args :=
  ⟨Printed.nothing, args, rfl, rfl⟩

theorem vasprintf_chars (h : ∀ c ∈ cs, c ≠ ch '%') (args : List (Arg δ)) :
    vasprintf doubleString cs args = some (ofChars cs, args) := by
  induction cs with
  | nil => rfl
  | cons c cs ih =>
    rw [vasprintf_char (h c mem_cons_self), ih fun x hx => h x (mem_cons_of_mem c hx)]
    rfl

theorem convertTo_length {minus : Bool} (h : s.convertTo minus w args = some (cs, left)) :
    left.length < args.length := by
  cases args with
  | nil => exact absurd h.symm (Option.some_ne_none _)
  | cons a args =>
    have hleft : left = args := by
      by_cases hnumeric : s.conv.Numeric
      · rw [convertTo_number hnumeric] at h
        obtain ⟨z, -, heq⟩ := Option.map_eq_some_iff.mp h
        exact (Prod.mk.inj heq).2.symm
      · unfold Spec.convertTo at h
        have hcs : s.conv = .c ∨ s.conv = .s := by
          cases hconv : s.conv <;> simp [hconv, Conv.Numeric] at hnumeric ⊢
        rcases hcs with hconv | hconv <;> rw [hconv] at h <;> cases a <;>
          first
          | exact (Prod.mk.inj (Option.some.inj h)).2.symm
          | exact absurd h.symm (Option.some_ne_none _)
    rw [hleft]
    exact Nat.lt_succ_self _

theorem print_length (h : s.print args = some (cs, left)) : left.length < args.length := by
  by_cases hw : s.width = .star
  · unfold Spec.print at h
    rw [hw] at h
    split at h
    · cases args with
      | nil => exact absurd h.symm (Option.some_ne_none _)
      | cons a args =>
        cases a with
        | int v => exact (convertTo_length h).trans (Nat.lt_succ_self _)
        | _ => exact absurd h.symm (Option.some_ne_none _)
    · exact absurd h.symm (Option.some_ne_none _)
  · exact convertTo_length (print_of_ne_star hw h).2

theorem print_singleton (h : d.print args = some (cs, left)) :
    print [d] args = some (cs ++ [], left) := by
  show (d.print args).bind _ = _
  rw [h]
  rfl

theorem not_prints_of_percent {f : FormatOptions} {rest : List UInt8}
    (hf : f.type = .TYPE_PERCENT) (hparse : parseFormatOptions (s.text ++ []) = (f, rest))
    (hrest : ∀ c ∈ rest, c ≠ ch '%') (hprint : s.print args = some (cs, left)) :
    ¬ Prints doubleString [.conversion s] args := by
  have hdirective : directive doubleString f args =
      some (Printed.put (charToInt (ch '%')) Printed.nothing, args) := by
    unfold directive
    rw [hf]
  have hrun : vasprintf doubleString (text [.conversion s]) args =
      some (((ofChars [ch '%']).append (ofChars rest)), args) := by
    show vasprintf doubleString (ch '%' :: (s.text ++ [])) args = _
    rw [vasprintf_percent, hparse, hdirective, Option.bind_some, vasprintf_chars hrest]
    rfl
  rintro ⟨p, left', hp, hiso⟩
  have hone := print_singleton (d := .conversion s) hprint
  have hleft : left' = left := ((Prod.mk.inj (Option.some.inj (hone.symm.trans hiso))).2).symm
  have hargs : left' = args := (Prod.mk.inj (Option.some.inj (hp.symm.trans hrun))).2
  have hlen := print_length hprint
  rw [← hleft, hargs] at hlen
  exact Nat.lt_irrefl _ hlen

theorem conv_char_ne (v : Conv) : v.char ≠ ch '%' := by
  cases v <;> decide

theorem length_text_ne (len : Option Length) : ∀ c ∈ lengthText len, c ≠ ch '%' := by
  have hall : (lengthText len).all (fun c => decide (c ≠ ch '%')) = true := by
    cases len with
    | none => rfl
    | some len => cases len <;> rfl
  exact fun c hc => of_decide_eq_true (all_eq_true.mp hall c hc)

theorem right_of_prints (h : Prints doubleString [d] args)
    (hprint : d.print args = some (cs, left)) : d.Right args := by
  cases d with
  | literal c hc => trivial
  | percent =>
    -- both characters are directives
    have hrun : vasprintf doubleString (text [.percent]) args =
        some (ofChars [ch '%', ch '%'], args) := rfl
    obtain ⟨p, left', hp, hiso⟩ := h
    obtain ⟨rfl, rfl⟩ := Prod.mk.inj (Option.some.inj (hrun.symm.trans hp))
    have hone : print [.percent] args = some ([ch '%'], args) := rfl
    rw [chars_ofChars] at hiso
    exact absurd (Prod.mk.inj (Option.some.inj (hone.symm.trans hiso))).1 (by decide)
  | conversion s =>
    by_cases hw : s.width = .star
    · obtain ⟨f, hf, hparse⟩ := parse_star [] hw
      refine absurd h (not_prints_of_percent hf hparse ?_ hprint)
      intro c hc
      rcases mem_append.mp hc with hc | hc
      · exact length_text_ne _ c hc
      · rw [mem_singleton.mp hc]
        exact conv_char_ne _
    · by_cases hj : s.length = some .j
      · obtain ⟨f, hf, hparse⟩ := parse_j [] hw hj
        refine absurd h (not_prints_of_percent hf hparse ?_ hprint)
        intro c hc
        rw [mem_singleton.mp hc]
        exact conv_char_ne _
      · obtain ⟨r, hdirective, hiff⟩ := directive_spec doubleString hw hj hprint
        refine ⟨hw, hj, hiff.mp ?_⟩
        have hrun : vasprintf doubleString (text [.conversion s]) args =
            r.map fun p => (p.append Printed.nothing, left) := by
          show vasprintf doubleString (ch '%' :: (s.text ++ [])) args = _
          rw [vasprintf_percent, parse_spec hw hj, hdirective]
          cases r <;> rfl
        have hone := print_singleton hprint
        obtain ⟨p, left', hp, hiso⟩ := h
        obtain ⟨p', rfl, heq⟩ := Option.map_eq_some_iff.mp (hrun.symm.trans hp)
        have hchars := (Prod.mk.inj (Option.some.inj (hone.symm.trans hiso))).1
        rw [← (Prod.mk.inj heq).1, chars_append, nothing_eq, chars_ofChars, append_nil,
          append_nil] at hchars
        rw [hchars]
        rfl

theorem print_cons (h : print (d :: ds) args = some (cs, left)) :
    ∃ cs1 left1 cs2, d.print args = some (cs1, left1) ∧ print ds left1 = some (cs2, left) := by
  obtain ⟨⟨cs1, left1⟩, hd, hrest⟩ := Option.bind_eq_some_iff.mp h
  obtain ⟨⟨cs2, left2⟩, hds, heq⟩ := Option.bind_eq_some_iff.mp hrest
  obtain ⟨-, rfl⟩ := Prod.mk.inj (Option.some.inj heq)
  exact ⟨cs1, left1, cs2, hd, hds⟩

theorem prints_of_allRight (hprint : print ds args = some (cs, left)) (h : AllRight ds args) :
    Prints doubleString ds args := by
  induction ds generalizing args cs with
  | nil => exact prints_nil args
  | cons d ds ih =>
    obtain ⟨cs1, left1, cs2, hd, hds⟩ := print_cons hprint
    exact (prints_cons h.1 hd).mpr (ih hds (h.2 cs1 left1 hd))

theorem allRight_take (h : AllRight ds args) (n : Nat) : AllRight (ds.take n) args := by
  induction ds generalizing args n with
  | nil =>
    rw [take_nil]
    exact h
  | cons d ds ih =>
    cases n with
    | zero => trivial
    | succ n => exact ⟨h.1, fun cs left hd => ih (h.2 cs left hd) n⟩

theorem print_take (h : print ds args = some (cs, left)) (n : Nat) :
    ∃ cs' left', print (ds.take n) args = some (cs', left') := by
  induction ds generalizing args cs n with
  | nil =>
    rw [take_nil]
    exact ⟨[], args, rfl⟩
  | cons d ds ih =>
    cases n with
    | zero => exact ⟨[], args, rfl⟩
    | succ n =>
      obtain ⟨cs1, left1, cs2, hd, hds⟩ := print_cons h
      obtain ⟨cs', left', htake⟩ := ih hds n
      refine ⟨cs1 ++ cs', left', ?_⟩
      show (d.print args).bind _ = _
      rw [hd, Option.bind_some]
      dsimp only
      rw [htake]
      rfl

/-- For every format that the standard defines, and its arguments: the format and all formats
that it starts with are printed as the standard says, with the same arguments taken, if and
only if all directives are right. -/
theorem vasprintf_iso_iff (hprint : print ds args = some (cs, left)) :
    (∀ n, Prints doubleString (ds.take n) args) ↔ AllRight ds args := by
  constructor
  · intro h
    induction ds generalizing args cs with
    | nil => trivial
    | cons d ds ih =>
      obtain ⟨cs1, left1, cs2, hd, hds⟩ := print_cons hprint
      have hright : d.Right args := right_of_prints (h 1) hd
      refine ⟨hright, fun cs' left' hd' => ?_⟩
      obtain ⟨rfl, rfl⟩ := Prod.mk.inj (Option.some.inj (hd.symm.trans hd'))
      exact ih hds fun n => (prints_cons hright hd).mp (h (n + 1))
  · intro h n
    obtain ⟨cs', left', htake⟩ := print_take hprint n
    exact prints_of_allRight htake (allRight_take h n)

/-- A number with its sign, and a character behind it. -/
theorem vasprintf_iso_iff_plus :
    Prints (fun _ : Unit => [])
      [.conversion ⟨[.plus], .absent, none, .d⟩, .literal (ch '!') (by decide)] [.int 5] := by
  have hprint : print
      [.conversion ⟨[.plus], .absent, none, .d⟩, .literal (ch '!') (by decide)]
      ([.int 5] : List (Arg Unit)) = some ([ch '+', ch '5', ch '!'], []) := rfl
  have hright : AllRight
      [.conversion ⟨[.plus], .absent, none, .d⟩, .literal (ch '!') (by decide)]
      ([.int 5] : List (Arg Unit)) := by
    refine ⟨⟨by decide, by decide, by decide, fun _ => rfl, fun z _ => ⟨?_, ?_, ?_⟩⟩,
      fun _ _ _ => ⟨trivial, fun _ _ _ => trivial⟩⟩ <;> exact fun h => absurd h (by decide)
  exact (vasprintf_iso_iff hprint).mpr hright 2

/-- `%%` puts out two characters, and -1 is 4294967295. -/
theorem percent_and_minus_one :
    ((vasprintf (fun _ : Unit => []) (text [.percent]) []).map fun r => r.1.chars) =
        some [ch '%', ch '%'] ∧
      (print [.percent] ([] : List (Arg Unit))).map Prod.fst = some [ch '%'] ∧
      ((vasprintf (fun _ : Unit => []) (text [.conversion ⟨[], .absent, none, .d⟩])
        [.int (-1)]).map fun r => r.1.chars) = some ([4, 2, 9, 4, 9, 6, 7, 2, 9, 5].map digit) ∧
      (print [.conversion ⟨[], .absent, none, .d⟩] ([.int (-1)] : List (Arg Unit))).map Prod.fst =
        some [ch '-', ch '1'] := by
  exact ⟨by decide, by decide, by decide, by decide⟩

end Iso

end Hostboot.Libc
