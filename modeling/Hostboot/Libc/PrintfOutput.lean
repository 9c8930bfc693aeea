import Hostboot.Libc.PrintfParse

/-!
# What the directives write

The console gets the characters of a list, one call for each, and counts them (`ofChars`).
`display_string` writes the field that the standard defines, and `display_number` writes
`Spec.written`.  This is the number that the standard defines (`Spec.number`), but for three
uses of the flags (`Spec.Exact`): `#` with a zero, `0` with `-`, and `0` with a width for which
the buffer is too short.
-/

namespace Hostboot.Libc

open Printed List

/-- Calls with the characters of a list. -/
def ofChars (cs : List UInt8) : Printed := ⟨cs.map charToInt, cs.length⟩

/-- The characters that a console gets. -/
def Printed.chars (p : Printed) : List UInt8 := p.out.map fun c => UInt8.ofBitVec (c.setWidth 8)

variable {cs cs' : List UInt8} {f : FormatOptions} {n : Nat}

theorem ofBitVec_charToInt (c : UInt8) : UInt8.ofBitVec ((charToInt c).setWidth 8) = c := by
  have hc : (c.toBitVec.setWidth 32).setWidth 8 = c.toBitVec := by
    apply BitVec.eq_of_toNat_eq
    have hlt := c.toBitVec.isLt
    simp only [BitVec.toNat_setWidth]
    omega
  unfold charToInt
  rw [hc]

@[simp] theorem chars_ofChars (cs : List UInt8) : (ofChars cs).chars = cs := by
  unfold ofChars Printed.chars
  rw [map_map]
  exact (map_congr_left fun c _ => ofBitVec_charToInt c).trans (map_id cs)

@[simp] theorem chars_append (p q : Printed) : (p.append q).chars = p.chars ++ q.chars :=
  map_append

@[simp] theorem append_ofChars (cs cs' : List UInt8) :
    (ofChars cs).append (ofChars cs') = ofChars (cs ++ cs') := by
  simp [ofChars, append]

@[simp] theorem nothing_eq : nothing = ofChars [] := rfl

@[simp] theorem put_ofChars (c : UInt8) (cs : List UInt8) :
    put (charToInt c) (ofChars cs) = ofChars (c :: cs) := rfl

theorem put_charToInt (c : UInt8) (p : Printed) :
    put (charToInt c) p = (ofChars [c]).append p := by
  simp [put, append, ofChars, Nat.add_comm]

@[simp] theorem putChars_eq (cs : List UInt8) : putChars cs = ofChars cs := by
  induction cs with
  | nil => rfl
  | cons c cs ih => rw [putChars, ih, put_ofChars]

@[simp] theorem putBlanks_eq (n : Nat) : putBlanks n = ofChars (List.replicate n (ch ' ')) := by
  induction n with
  | zero => rfl
  | succ n ih => rw [putBlanks, ih, put_ofChars, replicate_succ]

theorem putChars_append (cs cs' : List UInt8) (p : Printed) :
    (putChars cs).append ((putChars cs').append p) = (putChars (cs ++ cs')).append p := by
  rw [putChars_eq, putChars_eq, putChars_eq]
  unfold append ofChars
  simp [Nat.add_assoc]

theorem displayPreHeader_eq (f : FormatOptions) (n : Nat) : displayPreHeader f n =
    ofChars (if f.flags.LEFT_ALIGN then [] else List.replicate (f.field_width - n) (ch ' ')) := by
  unfold displayPreHeader
  cases f.flags.LEFT_ALIGN with
  | true => rfl
  | false =>
    by_cases hw : f.field_width = 0
    · simp [hw]
    · simp [hw]

theorem displayPostHeader_eq (f : FormatOptions) (n : Nat) : displayPostHeader f n =
    ofChars (if f.flags.LEFT_ALIGN then List.replicate (f.field_width - n) (ch ' ') else []) := by
  unfold displayPostHeader
  cases f.flags.LEFT_ALIGN with
  | false => rfl
  | true =>
    by_cases hw : f.field_width = 0
    · simp [hw]
    · simp [hw]

open Iso

theorem display_field (f : FormatOptions) (cs : List UInt8) :
    (displayPreHeader f cs.length).append ((ofChars cs).append (displayPostHeader f cs.length)) =
      ofChars (field f.flags.LEFT_ALIGN f.field_width cs) := by
  rw [displayPreHeader_eq, displayPostHeader_eq, append_ofChars, append_ofChars]
  unfold field
  cases f.flags.LEFT_ALIGN <;> simp

theorem displayString_eq (f : FormatOptions) (cs : List UInt8) :
    displayString f cs = ofChars (field f.flags.LEFT_ALIGN f.field_width cs) := by
  unfold displayString
  rw [putChars_eq]
  exact display_field f cs

theorem displayChar_chars (f : FormatOptions) (v : BitVec 32) :
    ((displayPreHeader f 1).append (put v (displayPostHeader f 1))).chars =
      field f.flags.LEFT_ALIGN f.field_width [UInt8.ofBitVec (v.setWidth 8)] := by
  have hfield := display_field f [UInt8.ofBitVec (v.setWidth 8)]
  have hchars := congrArg Printed.chars hfield
  rw [chars_append, chars_append, chars_ofChars, chars_ofChars] at hchars
  rw [chars_append, ← hchars]
  rfl

/-! ## Numbers -/

theorem digit_eq : ∀ d, d < 16 →
    digit d = digitChar false d ∧ toupper (digit d) = digitChar true d := by
  decide

theorem convertLoop_eq {b room : Nat} (hb : 2 ≤ b) (hn : n < b ^ room) :
    convertLoop b room n = some ((Nat.digits b n).map digit) := by
  induction room generalizing n with
  | zero =>
    obtain rfl : n = 0 := by
      rw [Nat.pow_zero] at hn
      omega
    rw [convertLoop, Nat.digits_zero]
    rfl
  | succ room ih =>
    cases n with
    | zero =>
      rw [convertLoop, Nat.digits_zero]
      rfl
    | succ n =>
      have hdiv : (n + 1) / b < b ^ room :=
        Nat.div_lt_of_lt_mul (by rwa [Nat.pow_succ, Nat.mul_comm] at hn)
      rw [convertLoop, ih hdiv, Nat.digits_def' (by omega) (Nat.succ_pos n)]
      rfl

theorem convertNumberToAscii_eq {b : Nat} (hb : 2 ≤ b) (hn : n < 2 ^ 64) :
    convertNumberToAscii n b = some (if n = 0 then [digit 0] else (Nat.digits b n).map digit) := by
  unfold convertNumberToAscii
  by_cases hzero : n = 0
  · rw [if_pos hzero, if_pos hzero]
  · rw [if_neg hzero, if_neg hzero]
    exact convertLoop_eq hb (hn.trans_le (Nat.pow_le_pow_left hb 64))

theorem fillZeros_add {output : List UInt8} {k : Nat} :
    fillZeros output (output.length + k) = if 0 < k ∧ 64 < output.length + k then none
      else some (output ++ List.replicate k (digit 0)) := by
  unfold fillZeros
  rw [Nat.add_sub_cancel_left]
  exact if_congr (by rw [Nat.lt_add_right_iff_pos]) rfl rfl

theorem fillZeros_zero (output : List UInt8) : fillZeros output 0 = some output := by
  simp [fillZeros]

namespace Iso

variable {s : Spec} {w : Nat} {z : Int}

/-- The type of a conversion. -/
def Conv.type : Conv → Types
  | .d => .TYPE_SIGNED_DECIMAL
  | .i => .TYPE_SIGNED_DECIMAL
  | .u => .TYPE_DECIMAL
  | .x => .TYPE_HEX
  | .X => .TYPE_HEX
  | .o => .TYPE_OCTAL
  | .c => .TYPE_CHAR
  | .s => .TYPE_STRING

theorem typeOf_char (v : Conv) : typeOf v.char = (v.type, v == .X) := by
  cases v <;> rfl

theorem options_type (s : Spec) : s.options.type = s.conv.type := congrArg Prod.fst (typeOf_char _)

theorem options_upper (s : Spec) : s.options.upper = (s.conv == .X) :=
  congrArg Prod.snd (typeOf_char _)

theorem options_left (s : Spec) : s.options.flags.LEFT_ALIGN = decide (.minus ∈ s.flags) := rfl

theorem options_zero (s : Spec) : s.options.flags.ZERO_PAD = decide (.zero ∈ s.flags) := rfl

theorem type_signed (v : Conv) : v.type = .TYPE_SIGNED_DECIMAL ↔ v.Signed := by
  cases v <;> simp [Conv.type, Conv.Signed]

/-- The integer that `display_number` shows. -/
def Spec.taken (s : Spec) (number : Nat) : Int :=
  if s.conv.Signed ∧ 2 ^ 63 ≤ number then number - 2 ^ 64 else number

/-- What `display_number` shows of the base. -/
def Spec.special (s : Spec) : List UInt8 :=
  if .alt ∈ s.flags then
    match s.conv with
    | .x => [ch '0', ch 'x']
    | .X => [ch '0', ch 'X']
    | .o => [ch '0']
    | _ => []
  else []

/-- What `display_number` writes.  The zeros of a field have to fit into the buffer. -/
def Spec.written (s : Spec) (w : Nat) (z : Int) : Option (List UInt8) :=
  let front := s.sign z ++ s.special
  let k := w - (front ++ s.digits z).length
  if .zero ∈ s.flags then
    if 0 < k ∧ 64 < (s.digits z).length + k then none
    else some (front ++ (List.replicate k (ch '0') ++ s.digits z))
  else some (field (decide (.minus ∈ s.flags)) w (front ++ s.digits z))

theorem taken_of_neg {number : Nat} (hsigned : s.conv.Signed) (hneg : 2 ^ 63 ≤ number) :
    s.taken number = number - 2 ^ 64 := if_pos ⟨hsigned, hneg⟩

theorem taken_of_not_neg {number : Nat} (h : ¬ (s.conv.Signed ∧ 2 ^ 63 ≤ number)) :
    s.taken number = number := if_neg h

theorem natAbs_taken_lt {number : Nat} (hn : number < 2 ^ 64) :
    (s.taken number).natAbs < 2 ^ 64 := by
  unfold Spec.taken
  split <;> omega

theorem signOf_options {number : Nat} (hn : number < 2 ^ 64) :
    signOf s.options number = (s.sign (s.taken number), (s.taken number).natAbs) := by
  have hplus : s.options.flags.PLUS_SIGN = decide (.plus ∈ s.flags) := rfl
  have hspace : s.options.flags.EMPTY_SIGN = decide (.space ∈ s.flags) := rfl
  unfold signOf Spec.sign
  rw [options_type, hplus, hspace]
  by_cases hsigned : s.conv.Signed
  · rw [if_pos ((type_signed _).mpr hsigned), if_pos hsigned]
    by_cases hneg : 2 ^ 63 ≤ number
    · rw [if_pos hneg, taken_of_neg hsigned hneg, if_pos (by omega)]
      congr 1
      omega
    · rw [if_neg hneg, taken_of_not_neg fun h => hneg h.2,
        if_neg (Int.not_lt.mpr (Int.natCast_nonneg number)), Int.natAbs_natCast]
      by_cases hp : .plus ∈ s.flags <;> by_cases hs : .space ∈ s.flags <;> simp [hp, hs]
  · rw [if_neg fun h => hsigned ((type_signed _).mp h), if_neg hsigned,
      taken_of_not_neg fun h => hsigned h.1, Int.natAbs_natCast]

theorem special_options (s : Spec) :
    (specialOf s.options).map (caseOf s.options) = s.special := by
  have halt : s.options.flags.ALT_FORM = decide (.alt ∈ s.flags) := rfl
  have hptr : s.conv.type ≠ .TYPE_PTR := by cases s.conv <;> decide
  unfold specialOf Spec.special caseOf
  rw [options_type, options_upper, halt]
  by_cases ha : .alt ∈ s.flags
  · rw [if_pos (Or.inl (decide_eq_true ha)), if_pos ha]
    cases s.conv <;> rfl
  · rw [if_neg (by simp [ha, hptr]), if_neg ha]
    rfl

theorem base_options (s : Spec) : baseOf s.options.type = s.conv.base := by
  rw [options_type]
  cases s.conv <;> rfl

theorem base_bounds (v : Conv) : 2 ≤ v.base ∧ v.base ≤ 16 := by
  cases v <;> decide

theorem caseOf_digit {d : Nat} (hd : d < 16) :
    caseOf s.options (digit d) = digitChar (s.conv == .X) d := by
  obtain ⟨hlower, hupper⟩ := digit_eq d hd
  unfold caseOf
  rw [options_upper]
  cases s.conv == .X with
  | true => exact hupper
  | false => exact hlower

theorem caseOf_zero (s : Spec) : caseOf s.options (digit 0) = ch '0' := by
  rw [caseOf_digit (Nat.succ_pos 15)]
  cases s.conv <;> rfl

theorem convert_options (hz : z.natAbs < 2 ^ 64) : ∃ output,
    convertNumberToAscii z.natAbs (baseOf s.options.type) = some output ∧
      output.length = (s.digits z).length ∧ output.length ≤ 64 ∧
      output.reverse.map (caseOf s.options) = s.digits z := by
  obtain ⟨hb, hb16⟩ := base_bounds s.conv
  rw [base_options, convertNumberToAscii_eq hb hz]
  refine ⟨_, rfl, ?_⟩
  unfold Spec.digits digitsOf
  by_cases hzero : z.natAbs = 0
  · rw [if_pos hzero, if_pos hzero]
    exact ⟨rfl, by decide, congrArg (fun c => [c]) (caseOf_zero s)⟩
  · rw [if_neg hzero, if_neg hzero]
    have hlen : (Nat.digits s.conv.base z.natAbs).length ≤ 64 :=
      (Nat.digits_length_le_iff (by omega) z.natAbs).mpr
        (hz.trans_le (Nat.pow_le_pow_left hb 64))
    refine ⟨by simp, by simpa using hlen, ?_⟩
    rw [map_reverse, map_map]
    refine congrArg List.reverse (map_congr_left fun d hd => caseOf_digit ?_)
    exact (Nat.digits_lt_base (by omega) hd).trans_le hb16

theorem displayNumber_options {number : Nat} (hn : number < 2 ^ 64) :
    displayNumber s.options number =
      (s.written s.width.parsed (s.taken number)).map ofChars := by
  have habs := natAbs_taken_lt (s := s) hn
  obtain ⟨output, houtput, hlen, -, hdigits⟩ := convert_options (s := s) habs
  have hprecision : s.options.precision = 0 := rfl
  have hwidth : s.options.field_width = s.width.parsed := rfl
  have hspecial : (specialOf s.options).length = s.special.length := by
    rw [← special_options, length_map]
  have hzeros : caseOf s.options (digit 0) = ch '0' := caseOf_zero s
  unfold displayNumber Spec.written
  rw [signOf_options hn]
  generalize s.taken number = z at *
  dsimp only
  rw [houtput]
  simp only [Option.bind_eq_bind, Option.bind_some]
  have htotal : output.length + (s.sign z).length + s.special.length =
      (s.sign z ++ s.special ++ s.digits z).length := by
    rw [length_append, length_append, hlen]
    omega
  rw [hprecision, fillZeros_zero, Option.bind_some, zeroPad, options_zero, hwidth, hspecial,
    htotal, special_options]
  by_cases hzero : .zero ∈ s.flags
  · rw [if_pos hzero, if_pos (decide_eq_true hzero), fillZeros_add, hlen]
    split
    · rfl
    · rw [Option.bind_some, reverse_append, reverse_replicate, map_append,
        map_replicate, hzeros, hdigits, if_pos (decide_eq_true hzero),
        if_pos (decide_eq_true hzero), putChars_append, putChars_append]
      simp
  · have hfield := display_field s.options (s.sign z ++ s.special ++ s.digits z)
    have hnot : ¬ decide (.zero ∈ s.flags) = true := by simpa using hzero
    rw [options_left, hwidth] at hfield
    rw [if_neg hzero, if_neg hnot, if_neg hnot, if_neg hnot]
    rw [Option.bind_some, hdigits, putChars_append, putChars_append, putChars_eq, hfield]
    rfl

/-! ## The numbers that are right -/

/-- What the flags and the width must be for a number to be written as the standard says.  With
`#` a zero gets a base, which shows only where it is one of at least two zeros.  With `0` and `-`
zeros are written, and they have to fit into the buffer. -/
structure Spec.Exact (s : Spec) (w : Nat) (z : Int) : Prop where
  alt : .alt ∈ s.flags → z = 0 →
    s.conv = .o ∧ .zero ∈ s.flags ∧ .minus ∉ s.flags ∧ 2 ≤ w
  left : .zero ∈ s.flags → .minus ∈ s.flags → w ≤ (s.sign z ++ s.base z ++ s.digits z).length
  room : .zero ∈ s.flags → w ≤ 64 + (s.sign z ++ s.special).length

theorem special_eq_base (h : .alt ∈ s.flags → z ≠ 0) : s.special = s.base z := by
  unfold Spec.special Spec.base
  by_cases ha : .alt ∈ s.flags
  · refine (if_pos ha).trans (Eq.trans ?_ (if_pos ⟨ha, h ha⟩).symm)
    cases s.conv <;> rfl
  · rw [if_neg ha, if_neg fun hboth => ha hboth.1]

theorem count_field {c : UInt8} (hc : ch ' ' ≠ c) (left : Bool) (w : Nat) (cs : List UInt8) :
    (field left w cs).count c = cs.count c := by
  have hblanks : (List.replicate (w - cs.length) (ch ' ')).count c = 0 := by
    rw [count_replicate, if_neg (by simpa using hc)]
  unfold field
  cases left
  · rw [if_neg Bool.false_ne_true, count_append, hblanks, Nat.zero_add]
  · rw [if_pos rfl, count_append, hblanks, Nat.add_zero]

theorem zeros_ne_blanks {front digits : List UInt8} {k : Nat} (hk : 0 < k) :
    front ++ (List.replicate k (ch '0') ++ digits) ≠
      front ++ digits ++ List.replicate k (ch ' ') := by
  intro heq
  have hcount := congrArg (List.count (ch ' ')) heq
  have hzeros : (List.replicate k (ch '0')).count (ch ' ') = 0 := by
    rw [count_replicate, if_neg (by decide)]
  simp only [count_append, hzeros, count_replicate_self] at hcount
  omega

theorem number_zeros (hzero : .zero ∈ s.flags) (hminus : .minus ∉ s.flags) :
    s.number (decide (.minus ∈ s.flags)) w z = s.sign z ++ s.base z ++
      (List.replicate (w - (s.sign z ++ s.base z ++ s.digits z).length) (ch '0') ++ s.digits z) :=
  if_pos ⟨hzero, by simpa using hminus⟩

theorem number_field (h : .zero ∈ s.flags → .minus ∈ s.flags) :
    s.number (decide (.minus ∈ s.flags)) w z =
      field (decide (.minus ∈ s.flags)) w (s.sign z ++ s.base z ++ s.digits z) :=
  if_neg fun hboth => hboth.2 (decide_eq_true (h hboth.1))

theorem written_zeros (hzero : .zero ∈ s.flags) : s.written w z =
    if 0 < w - (s.sign z ++ s.special ++ s.digits z).length ∧
      64 < (s.digits z).length + (w - (s.sign z ++ s.special ++ s.digits z).length) then none
    else some (s.sign z ++ s.special ++
      (List.replicate (w - (s.sign z ++ s.special ++ s.digits z).length) (ch '0') ++
        s.digits z)) := if_pos hzero

theorem written_field (hzero : .zero ∉ s.flags) : s.written w z =
    some (field (decide (.minus ∈ s.flags)) w (s.sign z ++ s.special ++ s.digits z)) :=
  if_neg hzero

theorem room_iff (hlen : (s.digits z).length ≤ 64) : w ≤ 64 + (s.sign z ++ s.special).length ↔
    ¬ (0 < w - (s.sign z ++ s.special ++ s.digits z).length ∧
      64 < (s.digits z).length + (w - (s.sign z ++ s.special ++ s.digits z).length)) := by
  rw [@List.length_append _ (s.sign z ++ s.special)]
  omega

theorem written_eq_iff_of_base (hbase : .alt ∈ s.flags → z ≠ 0)
    (hlen : (s.digits z).length ≤ 64) :
    s.written w z = some (s.number (decide (.minus ∈ s.flags)) w z) ↔ s.Exact w z := by
  have hspecial := special_eq_base hbase
  have halt : .alt ∈ s.flags → z = 0 →
      s.conv = .o ∧ .zero ∈ s.flags ∧ .minus ∉ s.flags ∧ 2 ≤ w :=
    fun ha h0 => absurd h0 (hbase ha)
  by_cases hzero : .zero ∈ s.flags
  · have hroom := room_iff (w := w) hlen
    rw [written_zeros hzero]
    by_cases hminus : .minus ∈ s.flags
    · rw [number_field fun _ => hminus]
      by_cases hfits : w ≤ (s.sign z ++ s.base z ++ s.digits z).length
      · have hk : w - (s.sign z ++ s.base z ++ s.digits z).length = 0 := by omega
        have hfault : w ≤ 64 + (s.sign z ++ s.special).length := hroom.mpr fun h => by
          rw [hspecial] at h
          omega
        rw [if_neg (hroom.mp hfault), hspecial, decide_eq_true hminus, field, if_pos rfl, hk]
        exact iff_of_true (by simp) ⟨halt, fun _ _ => hfits, fun _ => hfault⟩
      · refine iff_of_false ?_ fun h => hfits (h.left hzero hminus)
        split
        · exact fun h => Option.some_ne_none _ h.symm
        · rw [decide_eq_true hminus, field, if_pos rfl, hspecial]
          exact fun h => zeros_ne_blanks (by omega) (Option.some.inj h)
    · rw [number_zeros hzero hminus]
      by_cases hfull : w ≤ 64 + (s.sign z ++ s.special).length
      · rw [if_neg (hroom.mp hfull), hspecial]
        exact iff_of_true rfl ⟨halt, fun _ h => absurd h hminus, fun _ => hfull⟩
      · rw [if_pos (not_not.mp fun h => hfull (hroom.mpr h))]
        exact iff_of_false (fun h => Option.some_ne_none _ h.symm) fun h => hfull (h.room hzero)
  · rw [written_field hzero, number_field fun h => absurd h hzero, hspecial]
    exact iff_of_true rfl ⟨halt, fun h => absurd h hzero, fun h => absurd h hzero⟩

theorem written_eq_iff_octal (ha : .alt ∈ s.flags) (ho : s.conv = .o) :
    s.written w 0 = some (s.number (decide (.minus ∈ s.flags)) w 0) ↔ s.Exact w 0 := by
  have hsign : s.sign 0 = [] := by
    unfold Spec.sign
    rw [ho]
    rfl
  have hbase : s.base 0 = [] := if_neg fun h => h.2 rfl
  have hdigits : s.digits 0 = [ch '0'] := rfl
  have hspecial : s.special = [ch '0'] := by
    unfold Spec.special
    rw [if_pos ha, ho]
  by_cases hzero : .zero ∈ s.flags
  · have hroom := room_iff (s := s) (z := 0) (w := w) (by rw [hdigits]; decide)
    have hwritten := written_zeros (w := w) (z := 0) hzero
    rw [hsign, hspecial, hdigits] at hwritten hroom
    by_cases hminus : .minus ∈ s.flags
    · rw [hwritten, number_field fun _ => hminus, hsign, hbase, hdigits]
      refine iff_of_false ?_ fun h => (h.alt ha rfl).2.2.1 hminus
      split
      · exact fun h => Option.some_ne_none _ h.symm
      · intro h
        have hcount := congrArg (List.count (ch '0')) (Option.some.inj h)
        rw [count_field (by decide)] at hcount
        simp at hcount
    · rw [hwritten, number_zeros hzero hminus, hsign, hbase, hdigits]
      by_cases hfull : w ≤ 65
      · rw [if_neg (hroom.mp hfull)]
        by_cases htwo : 2 ≤ w
        · obtain ⟨k, rfl⟩ := Nat.exists_eq_add_of_le' htwo
          refine iff_of_true rfl ⟨fun _ _ => ⟨ho, hzero, hminus, htwo⟩,
            fun _ h => absurd h hminus, fun _ => ?_⟩
          rw [hsign, hspecial]
          exact hfull
        · refine iff_of_false (fun h => ?_) fun h => htwo (h.alt ha rfl).2.2.2
          have hlen := congrArg List.length (Option.some.inj h)
          simp only [length_append, length_replicate, length_cons,
            length_nil] at hlen
          omega
      · rw [if_pos (not_not.mp fun h => hfull (hroom.mpr h))]
        refine iff_of_false (fun h => Option.some_ne_none _ h.symm) fun h => hfull ?_
        have hle := h.room hzero
        rwa [hsign, hspecial] at hle
  · rw [written_field hzero, number_field fun h => absurd h hzero, hsign, hspecial, hbase, hdigits]
    refine iff_of_false (fun h => ?_) fun h => hzero (h.alt ha rfl).2.1
    have hcount := congrArg (List.count (ch '0')) (Option.some.inj h)
    rw [count_field (by decide), count_field (by decide)] at hcount
    exact absurd hcount (by decide)

theorem written_ne_hex (ha : .alt ∈ s.flags) (hx : s.conv = .x ∨ s.conv = .X) :
    s.written w 0 ≠ some (s.number (decide (.minus ∈ s.flags)) w 0) := by
  obtain ⟨c, hspecial, hblank, hc⟩ : ∃ c, s.special = [ch '0', c] ∧ ch ' ' ≠ c ∧ ch '0' ≠ c := by
    unfold Spec.special
    rw [if_pos ha]
    rcases hx with hx | hx <;> rw [hx] <;> exact ⟨_, rfl, by decide, by decide⟩
  have hsign : s.sign 0 = [] := by
    unfold Spec.sign
    rcases hx with hx | hx <;> rw [hx] <;> rfl
  have hbase : s.base 0 = [] := if_neg fun h => h.2 rfl
  have hdigits : s.digits 0 = [ch '0'] := rfl
  have hnone : (s.number (decide (.minus ∈ s.flags)) w 0).count c = 0 := by
    by_cases hzeros : .zero ∈ s.flags ∧ .minus ∉ s.flags
    · rw [number_zeros hzeros.1 hzeros.2, hsign, hbase, hdigits]
      simp [count_replicate, hc]
    · rw [number_field fun h => not_not.mp fun hm => hzeros ⟨h, hm⟩, count_field hblank, hsign,
        hbase, hdigits]
      simp [hc]
  intro h
  by_cases hzero : .zero ∈ s.flags
  · rw [written_zeros hzero] at h
    split at h
    · exact Option.some_ne_none _ h.symm
    · rw [← Option.some.inj h, hsign, hspecial] at hnone
      exact count_eq_zero.mp hnone (by simp)
  · rw [written_field hzero] at h
    rw [← Option.some.inj h, count_field hblank, hsign, hspecial] at hnone
    exact count_eq_zero.mp hnone (by simp)

/-- A number is written as the standard says exactly when the flags and the width are right. -/
theorem written_eq_iff (hdefined : s.Defined) (hlen : (s.digits z).length ≤ 64) :
    s.written w z = some (s.number (decide (.minus ∈ s.flags)) w z) ↔ s.Exact w z := by
  by_cases hbase : .alt ∈ s.flags → z ≠ 0
  · exact written_eq_iff_of_base hbase hlen
  · obtain ⟨ha, hz⟩ := Classical.not_imp.mp hbase
    obtain rfl := not_not.mp hz
    rcases hdefined.alt ha with ho | hx
    · exact written_eq_iff_octal ha ho
    · refine iff_of_false (written_ne_hex ha hx) fun h => ?_
      rw [(h.alt ha rfl).1] at hx
      exact absurd hx (by decide)

/-! ## The value of what is written -/

/-- The value of a digit. -/
def figure (c : UInt8) : Option Nat :=
  if isdigit c then some (c - ch '0').toNat
  else if ch 'a' ≤ c ∧ c ≤ ch 'f' then some ((c - ch 'a').toNat + 10)
  else if ch 'A' ≤ c ∧ c ≤ ch 'F' then some ((c - ch 'A').toNat + 10)
  else none

/-- The number that the digits of a text stand for. -/
def valueOf (b : Nat) (cs : List UInt8) : Nat :=
  (cs.filterMap figure).foldl (fun a d => a * b + d) 0

theorem figure_digitChar : ∀ d, d < 16 →
    figure (digitChar false d) = some d ∧ figure (digitChar true d) = some d := by
  decide

theorem filterMap_replicate {c : UInt8} {k : Nat} (hc : figure c = none) :
    (List.replicate k c).filterMap figure = [] := by
  rw [filterMap_eq_nil_iff]
  intro x hx
  rw [eq_of_mem_replicate hx]
  exact hc

theorem filterMap_field (left : Bool) (w : Nat) (cs : List UInt8) :
    (field left w cs).filterMap figure = cs.filterMap figure := by
  have hblanks := filterMap_replicate (k := w - cs.length) (show figure (ch ' ') = none by decide)
  unfold field
  cases left <;> simp [hblanks]

theorem foldl_zeros {b : Nat} {zs ds : List Nat} (h : ∀ d ∈ zs, d = 0) :
    (zs ++ ds).foldl (fun a d => a * b + d) 0 = ds.foldl (fun a d => a * b + d) 0 := by
  induction zs with
  | nil => rfl
  | cons d zs ih =>
    rw [cons_append, foldl_cons, h d mem_cons_self, Nat.zero_mul, Nat.zero_add]
    exact ih fun x hx => h x (mem_cons_of_mem d hx)

theorem valueOf_front {b k : Nat} {front digits : List UInt8}
    (h : ∀ d ∈ front.filterMap figure, d = 0) :
    valueOf b (front ++ (List.replicate k (ch '0') ++ digits)) = valueOf b digits := by
  unfold valueOf
  rw [filterMap_append, filterMap_append, ← append_assoc]
  refine foldl_zeros fun d hd => ?_
  rcases mem_append.mp hd with hd | hd
  · exact h d hd
  · obtain ⟨c, hc, hfigure⟩ := mem_filterMap.mp hd
    rw [eq_of_mem_replicate hc] at hfigure
    exact (Option.some.inj hfigure).symm

theorem valueOf_field (b : Nat) (left : Bool) (w : Nat) (cs : List UInt8) :
    valueOf b (field left w cs) = valueOf b cs := by
  unfold valueOf
  rw [filterMap_field]

theorem valueOf_digits (s : Spec) (z : Int) : valueOf s.conv.base (s.digits z) = z.natAbs := by
  obtain ⟨hb, hb16⟩ := base_bounds s.conv
  unfold valueOf Spec.digits digitsOf
  by_cases hzero : z.natAbs = 0
  · have hfigures : [ch '0'].filterMap figure = [0] := by decide
    rw [if_pos hzero, hzero, hfigures, foldl_cons, Nat.zero_mul]
    rfl
  · have hfigures : ((Nat.digits s.conv.base z.natAbs).map (digitChar (s.conv == .X))).filterMap
        figure = Nat.digits s.conv.base z.natAbs := by
      rw [filterMap_map]
      refine (filterMap_congr fun d hd => ?_).trans filterMap_some
      obtain ⟨hlower, hupper⟩ :=
        figure_digitChar d ((Nat.digits_lt_base (by omega) hd).trans_le hb16)
      cases hx : s.conv == .X with
      | true => simpa [hx] using hupper
      | false => simpa [hx] using hlower
    rw [if_neg hzero, filterMap_reverse, hfigures]
    exact foldl_digits s.conv.base z.natAbs

theorem figures_sign (s : Spec) (z : Int) : (s.sign z).filterMap figure = [] := by
  unfold Spec.sign
  split
  · split
    · rfl
    · split
      · rfl
      · split <;> rfl
  · rfl

theorem figures_special (s : Spec) : ∀ d ∈ s.special.filterMap figure, d = 0 := by
  unfold Spec.special
  split
  · cases s.conv <;> decide
  · decide

theorem figures_base (s : Spec) (z : Int) : ∀ d ∈ (s.base z).filterMap figure, d = 0 := by
  unfold Spec.base
  split
  · cases s.conv <;> decide
  · decide

theorem valueOf_written {cs : List UInt8} (h : s.written w z = some cs) :
    valueOf s.conv.base cs = z.natAbs := by
  have hfront : ∀ d ∈ (s.sign z ++ s.special).filterMap figure, d = 0 := by
    rw [filterMap_append, figures_sign, nil_append]
    exact figures_special s
  by_cases hzero : .zero ∈ s.flags
  · rw [written_zeros hzero] at h
    split at h
    · exact absurd h.symm (Option.some_ne_none _)
    · rw [← Option.some.inj h, valueOf_front hfront, valueOf_digits]
  · rw [written_field hzero] at h
    rw [← Option.some.inj h, valueOf_field, ← valueOf_digits s z]
    exact valueOf_front (k := 0) hfront

theorem valueOf_number (s : Spec) (w : Nat) (z : Int) :
    valueOf s.conv.base (s.number (decide (.minus ∈ s.flags)) w z) = z.natAbs := by
  have hfront : ∀ d ∈ (s.sign z ++ s.base z).filterMap figure, d = 0 := by
    rw [filterMap_append, figures_sign, nil_append]
    exact figures_base s z
  by_cases hzeros : .zero ∈ s.flags ∧ .minus ∉ s.flags
  · rw [number_zeros hzeros.1 hzeros.2, valueOf_front hfront, valueOf_digits]
  · rw [number_field fun h => not_not.mp fun hm => hzeros ⟨h, hm⟩, valueOf_field,
      ← valueOf_digits s z]
    exact valueOf_front (k := 0) hfront

theorem digitChar_ne_minus : ∀ d, d < 16 →
    digitChar false d ≠ ch '-' ∧ digitChar true d ≠ ch '-' := by
  decide

theorem minus_notMem_digits (s : Spec) (z : Int) : ch '-' ∉ s.digits z := by
  obtain ⟨hb, hb16⟩ := base_bounds s.conv
  unfold Spec.digits digitsOf
  split
  · decide
  · rw [mem_reverse, mem_map]
    rintro ⟨d, hd, heq⟩
    obtain ⟨hlower, hupper⟩ :=
      digitChar_ne_minus d ((Nat.digits_lt_base (by omega) hd).trans_le hb16)
    cases hx : s.conv == .X with
    | true =>
      rw [hx] at heq
      exact hupper heq
    | false =>
      rw [hx] at heq
      exact hlower heq

theorem minus_notMem_special (s : Spec) : ch '-' ∉ s.special := by
  unfold Spec.special
  split
  · cases s.conv <;> decide
  · decide

theorem minus_mem_sign (s : Spec) (z : Int) : ch '-' ∈ s.sign z ↔ s.conv.Signed ∧ z < 0 := by
  unfold Spec.sign
  by_cases hsigned : s.conv.Signed
  · rw [if_pos hsigned]
    by_cases hneg : z < 0
    · rw [if_pos hneg]
      exact iff_of_true mem_cons_self ⟨hsigned, hneg⟩
    · rw [if_neg hneg]
      refine iff_of_false ?_ fun h => hneg h.2
      split
      · decide
      · split <;> decide
  · rw [if_neg hsigned]
    exact iff_of_false (not_mem_nil) fun h => hsigned h.1

theorem mem_field {c : UInt8} (hc : ch ' ' ≠ c) (left : Bool) (w : Nat) (cs : List UInt8) :
    c ∈ field left w cs ↔ c ∈ cs := by
  rw [← count_pos_iff, count_field hc, count_pos_iff]

theorem minus_notMem_written {cs : List UInt8} (hz : 0 ≤ z) (h : s.written w z = some cs) :
    ch '-' ∉ cs := by
  have hsign : ch '-' ∉ s.sign z := fun hmem => by
    have hneg := ((minus_mem_sign s z).mp hmem).2
    omega
  by_cases hzero : .zero ∈ s.flags
  · rw [written_zeros hzero] at h
    split at h
    · exact absurd h.symm (Option.some_ne_none _)
    · have hne : ch '-' ≠ ch '0' := by decide
      rw [← Option.some.inj h]
      simp [hsign, minus_notMem_special, minus_notMem_digits, mem_replicate, hne]
  · rw [written_field hzero] at h
    rw [← Option.some.inj h, mem_field (by decide)]
    simp [hsign, minus_notMem_special, minus_notMem_digits]

theorem minus_mem_number (hsigned : s.conv.Signed) (hz : z < 0) :
    ch '-' ∈ s.number (decide (.minus ∈ s.flags)) w z := by
  have hsign := (minus_mem_sign s z).mpr ⟨hsigned, hz⟩
  by_cases hzeros : .zero ∈ s.flags ∧ .minus ∉ s.flags
  · rw [number_zeros hzeros.1 hzeros.2]
    simp [hsign]
  · rw [number_field fun h => not_not.mp fun hm => hzeros ⟨h, hm⟩, mem_field (by decide)]
    simp [hsign]

theorem written_ne {z' : Int} (hz : 0 ≤ z) (hne : z ≠ z') (hsigned : z' < 0 → s.conv.Signed) :
    s.written w z ≠ some (s.number (decide (.minus ∈ s.flags)) w z') := by
  intro h
  have habs := (valueOf_written h).symm.trans (valueOf_number s w z')
  have hneg : z' < 0 := by omega
  exact minus_notMem_written hz h (minus_mem_number (hsigned hneg) hneg)

/-! ## Widths that do not fit -/

theorem length_field (left : Bool) (w : Nat) (cs : List UInt8) :
    (field left w cs).length = max w cs.length := by
  unfold field
  cases left <;> simp <;> omega

/-- A width that loses its high bits matters where the field is wider than its text. -/
theorem field_mod_eq_iff (left : Bool) (w : Nat) (cs : List UInt8) :
    field left (w % 2 ^ 64) cs = field left w cs ↔ w < 2 ^ 64 ∨ w ≤ cs.length := by
  constructor
  · intro h
    have hlen := congrArg List.length h
    rw [length_field, length_field] at hlen
    omega
  · rintro (hw | hw)
    · rw [Nat.mod_eq_of_lt hw]
    · have hzero : w - cs.length = 0 := by omega
      have hzero' : w % 2 ^ 64 - cs.length = 0 := by omega
      unfold field
      rw [hzero, hzero']

theorem length_sign (s : Spec) (z : Int) : (s.sign z).length ≤ 1 := by
  unfold Spec.sign
  split
  · split
    · decide
    · split
      · decide
      · split <;> decide
  · decide

theorem length_special (s : Spec) : s.special.length ≤ 2 := by
  unfold Spec.special
  split
  · cases s.conv <;> decide
  · decide

theorem length_written {cs : List UInt8} (h : s.written w z = some cs) :
    cs.length = max w (s.sign z ++ s.special ++ s.digits z).length := by
  by_cases hzero : .zero ∈ s.flags
  · rw [written_zeros hzero] at h
    split at h
    · exact absurd h.symm (Option.some_ne_none _)
    · rw [← Option.some.inj h]
      simp
      omega
  · rw [written_field hzero] at h
    rw [← Option.some.inj h, length_field]

theorem le_length_number (s : Spec) (w : Nat) (z : Int) :
    w ≤ (s.number (decide (.minus ∈ s.flags)) w z).length := by
  by_cases hzeros : .zero ∈ s.flags ∧ .minus ∉ s.flags
  · rw [number_zeros hzeros.1 hzeros.2]
    simp
    omega
  · rw [number_field fun h => not_not.mp fun hm => hzeros ⟨h, hm⟩, length_field]
    exact Nat.le_max_left _ _

theorem written_mod_ne {z' : Int} (hw : 2 ^ 64 ≤ w) (hlen : (s.digits z).length ≤ 64) :
    s.written (w % 2 ^ 64) z ≠ some (s.number (decide (.minus ∈ s.flags)) w z') := by
  intro h
  have hwritten := length_written h
  have hnumber := le_length_number s w z'
  have hsign := length_sign s z
  have hspecial := length_special s
  rw [length_append, length_append] at hwritten
  omega

end Iso

end Hostboot.Libc
