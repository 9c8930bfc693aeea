import Hostboot.Libc.PrintfIso
import Hostboot.Lib.Bytes

/-!
# The sinks of `stdio.C`

`SprintfBuffer` puts what `vasprintf` writes into a buffer, as far as it fits.  A backspace is
not stored: it takes the character in front of it away, also one that did not fit.  So the
buffer holds the output with its backspaces done (`edited`).

What `vasprintf` returns is an `int` that counts the calls of the console
(`vasprintf_counts`).  The calls of a `%p` are not in it.
-/

namespace Hostboot.Libc

open Hostboot.Lib List

/-! ## The functions of the source -/

/-- `SprintfBuffer`, with the memory of its buffer. -/
structure SprintfBuffer where
  iv_pos : Nat
  iv_size : Nat
  iv_buffer : Nat
  mem : Mem

/-- `'\b'`. -/
def backspace : BitVec 32 := 8#32

/-- An `int` in a `char`. -/
def intToChar (c : BitVec 32) : UInt8 := UInt8.ofBitVec (c.setWidth 8)

namespace SprintfBuffer

def putc (b : SprintfBuffer) (c : BitVec 32) : SprintfBuffer :=
  if c = backspace then
    if b.iv_pos > 0 then { b with iv_pos := b.iv_pos - 1 } else b
  else if b.iv_pos < b.iv_size then
    { b with mem := b.mem.put (b.iv_buffer + b.iv_pos) (intToChar c), iv_pos := b.iv_pos + 1 }
  else { b with iv_pos := b.iv_pos + 1 }

def nullTerminate (b : SprintfBuffer) : SprintfBuffer :=
  if b.iv_size > 0 then
    let b := if b.iv_pos ≥ b.iv_size then { b with iv_pos := b.iv_size - 1 } else b
    b.putc 0#32
  else b

end SprintfBuffer

variable {δ : Type} (doubleString : δ → List UInt8)

/-- `snprintf`, and `vsnprintf`: the memory, and the result. -/
def snprintf (m : Mem) (str size : Nat) (format : List UInt8) (args : List (Arg δ)) :
    Option (Mem × BitVec 32) := do
  let (p, _) ← vasprintf doubleString format args
  let console := p.out.foldl SprintfBuffer.putc ⟨0, size, str, m⟩
  some (console.nullTerminate.mem, p.returned.setWidth 32)

/-- `sprintf`, and `vsprintf`. -/
def sprintf (m : Mem) (str : Nat) (format : List UInt8) (args : List (Arg δ)) :
    Option (Mem × BitVec 32) := snprintf doubleString m str (2 ^ 64 - 1) format args

/-! ## The count -/

/-- The directives that the loop over a format finds. -/
def directivesLoop : Nat → List UInt8 → List FormatOptions
  | _, [] => []
  | 0, _ :: _ => []
  | turns + 1, c :: fmt =>
    if c = ch '%' then (parseFormatOptions fmt).1 :: directivesLoop turns (parseFormatOptions fmt).2
    else directivesLoop turns fmt

def directives (fmt : List UInt8) : List FormatOptions := directivesLoop fmt.length fmt

/-- Every call of the console is counted. -/
def Printed.Counted (p : Printed) : Prop := p.count = p.out.length

variable {doubleString} {p q : Printed} {f : FormatOptions} {fmt : List UInt8}
  {args left : List (Arg δ)}

theorem counted_ofChars (cs : List UInt8) : (ofChars cs).Counted := (length_map _).symm

theorem Printed.Counted.append (hp : p.Counted) (hq : q.Counted) : (p.append q).Counted := by
  unfold Printed.Counted Printed.append at *
  rw [length_append, hp, hq]

theorem Printed.Counted.put (hp : p.Counted) (c : BitVec 32) : (Printed.put c p).Counted :=
  congrArg (· + 1) hp

theorem counted_displayPreHeader (f : FormatOptions) (n : Nat) : (displayPreHeader f n).Counted := by
  rw [displayPreHeader_eq]
  exact counted_ofChars _

theorem counted_displayPostHeader (f : FormatOptions) (n : Nat) :
    (displayPostHeader f n).Counted := by
  rw [displayPostHeader_eq]
  exact counted_ofChars _

theorem counted_displayString (f : FormatOptions) (cs : List UInt8) :
    (displayString f cs).Counted := by
  rw [displayString_eq]
  exact counted_ofChars _

theorem counted_displayNumber {number : Nat} (h : displayNumber f number = some p) :
    p.Counted := by
  unfold displayNumber at h
  generalize signOf f number = taken at h
  obtain ⟨output, -, h⟩ := Option.bind_eq_some_iff.mp h
  obtain ⟨output', -, h⟩ := Option.bind_eq_some_iff.mp h
  obtain ⟨padded, -, h⟩ := Option.bind_eq_some_iff.mp h
  obtain rfl := Option.some.inj h
  have hchars : ∀ cs, (putChars cs).Counted := fun cs => by
    rw [putChars_eq]
    exact counted_ofChars cs
  refine .append ?_ (.append (hchars _) (.append (hchars _) (.append (hchars _) ?_)))
  · split
    · rfl
    · exact counted_displayPreHeader _ _
  · split
    · rfl
    · exact counted_displayPostHeader _ _

theorem counted_directive (hf : f.type ≠ .TYPE_PTR)
    (h : directive doubleString f args = some (p, left)) : p.Counted := by
  unfold directive at h
  split at h
  · obtain ⟨rfl, -⟩ := Prod.mk.inj (Option.some.inj h)
    rfl
  · exact absurd ‹_› hf
  · exact absurd ‹_› hf
  · obtain ⟨rfl, -⟩ := Prod.mk.inj (Option.some.inj h)
    exact (counted_displayPreHeader f 1).append ((counted_displayPostHeader f 1).put _)
  · exact absurd h.symm (Option.some_ne_none _)
  · obtain ⟨rfl, -⟩ := Prod.mk.inj (Option.some.inj h)
    exact counted_displayString _ _
  · exact absurd h.symm (Option.some_ne_none _)
  · obtain ⟨rfl, -⟩ := Prod.mk.inj (Option.some.inj h)
    exact counted_displayString _ _
  · exact absurd h.symm (Option.some_ne_none _)
  · obtain ⟨r, -, h⟩ := Option.bind_eq_some_iff.mp h
    obtain ⟨p', hp', heq⟩ := Option.map_eq_some_iff.mp h
    obtain ⟨rfl, -⟩ := Prod.mk.inj heq
    exact counted_displayNumber hp'

theorem counted_vasprintfLoop {turns : Nat}
    (hptr : ∀ f ∈ directivesLoop turns fmt, f.type ≠ .TYPE_PTR)
    (h : vasprintfLoop doubleString turns fmt args = some (p, left)) : p.Counted := by
  induction turns generalizing fmt args p left with
  | zero =>
    cases fmt with
    | nil =>
      obtain ⟨rfl, -⟩ := Prod.mk.inj (Option.some.inj h)
      rfl
    | cons c fmt => exact absurd h.symm (Option.some_ne_none _)
  | succ turns ih =>
    cases fmt with
    | nil =>
      obtain ⟨rfl, -⟩ := Prod.mk.inj (Option.some.inj h)
      rfl
    | cons c fmt =>
      rw [vasprintfLoop] at h
      rw [directivesLoop] at hptr
      by_cases hc : c = ch '%'
      · rw [if_pos hc] at h hptr
        generalize parseFormatOptions fmt = parsed at h hptr
        obtain ⟨f, rest⟩ := parsed
        obtain ⟨⟨p1, args1⟩, hp1, h⟩ := Option.bind_eq_some_iff.mp h
        obtain ⟨⟨p2, args2⟩, hp2, h⟩ := Option.bind_eq_some_iff.mp h
        obtain ⟨rfl, -⟩ := Prod.mk.inj (Option.some.inj h)
        have hfirst := counted_directive (hptr _ mem_cons_self) hp1
        exact hfirst.append (ih (fun f hf => hptr f (mem_cons_of_mem _ hf)) hp2)
      · rw [if_neg hc] at h hptr
        obtain ⟨⟨p2, args2⟩, hp2, h⟩ := Option.bind_eq_some_iff.mp h
        obtain ⟨rfl, -⟩ := Prod.mk.inj (Option.some.inj h)
        exact (ih hptr hp2).put _

theorem counted_vasprintf (hptr : ∀ f ∈ directives fmt, f.type ≠ .TYPE_PTR)
    (h : vasprintf doubleString fmt args = some (p, left)) : p.Counted :=
  counted_vasprintfLoop hptr h

/-! ## The buffer -/

/-- A character after others, of which a backspace takes the last away. -/
def edit (cs : List (BitVec 32)) (c : BitVec 32) : List (BitVec 32) :=
  if c = backspace then cs.dropLast else cs ++ [c]

/-- An output with its backspaces done. -/
def edited (out : List (BitVec 32)) : List (BitVec 32) := out.foldl edit []

theorem foldl_edit {cs out : List (BitVec 32)} (h : backspace ∉ out) :
    out.foldl edit cs = cs ++ out := by
  induction out generalizing cs with
  | nil => exact (append_nil cs).symm
  | cons c out ih =>
    have hc : c ≠ backspace := fun heq => h (heq ▸ mem_cons_self)
    rw [foldl_cons, edit, if_neg hc, ih fun hmem => h (mem_cons_of_mem c hmem)]
    simp

theorem edited_of_notMem {out : List (BitVec 32)} (h : backspace ∉ out) : edited out = out :=
  foldl_edit h

namespace SprintfBuffer

variable {b : SprintfBuffer} {m : Mem} {cs : List (BitVec 32)}

/-- A buffer holds a text, as far as it fits.  `m` is the memory at the start. -/
structure Holds (b : SprintfBuffer) (m : Mem) (cs : List (BitVec 32)) : Prop where
  pos : b.iv_pos = cs.length
  chars : ∀ i c, i < b.iv_size → cs[i]? = some c → b.mem (b.iv_buffer + i) = intToChar c
  frame : m.SameOutside b.mem b.iv_buffer b.iv_size

theorem putc_size (b : SprintfBuffer) (c : BitVec 32) : (b.putc c).iv_size = b.iv_size := by
  unfold putc
  split_ifs <;> rfl

theorem putc_buffer (b : SprintfBuffer) (c : BitVec 32) : (b.putc c).iv_buffer = b.iv_buffer := by
  unfold putc
  split_ifs <;> rfl

theorem Holds.putc (h : b.Holds m cs) (c : BitVec 32) : (b.putc c).Holds m (edit cs c) := by
  unfold SprintfBuffer.putc edit
  by_cases hback : c = backspace
  · rw [if_pos hback, if_pos hback]
    by_cases hpos : b.iv_pos > 0
    · rw [if_pos hpos]
      refine ⟨?_, fun i c' hi hc' => ?_, h.frame⟩
      · rw [length_dropLast, ← h.pos]
      · refine h.chars i c' hi ?_
        rw [getElem?_dropLast] at hc'
        exact (Option.ite_none_right_eq_some.mp hc').2
    · have hnil : cs = [] := eq_nil_of_length_eq_zero (by rw [← h.pos]; omega)
      rw [if_neg hpos, hnil]
      rw [hnil] at h
      exact h
  · rw [if_neg hback, if_neg hback]
    have hlen : (cs ++ [c]).length = b.iv_pos + 1 := by rw [length_append, h.pos]; rfl
    by_cases hfit : b.iv_pos < b.iv_size
    · rw [if_pos hfit]
      refine ⟨hlen.symm, fun i c' hi hc' => ?_, fun x hx => ?_⟩
      · dsimp only at hi ⊢
        rcases Nat.lt_trichotomy i b.iv_pos with hlt | heq | hgt
        · rw [getElem?_append_left (by rw [← h.pos]; exact hlt)] at hc'
          rw [Mem.put_of_ne _ (by omega)]
          exact h.chars i c' hi hc'
        · rw [heq, h.pos, getElem?_concat_length] at hc'
          rw [heq, Mem.put_same, Option.some.inj hc']
        · rw [getElem?_eq_none (by omega)] at hc'
          exact absurd hc'.symm (Option.some_ne_none _)
      · dsimp only at hx ⊢
        rw [Mem.put_of_ne _ (by omega)]
        exact h.frame x hx
    · rw [if_neg hfit]
      refine ⟨hlen.symm, fun i c' hi hc' => h.chars i c' hi ?_, h.frame⟩
      dsimp only at hi
      rwa [getElem?_append_left (by rw [← h.pos]; omega)] at hc'

theorem Holds.foldl (h : b.Holds m cs) (out : List (BitVec 32)) :
    (out.foldl SprintfBuffer.putc b).Holds m (out.foldl edit cs) := by
  induction out generalizing b cs with
  | nil => exact h
  | cons c out ih => exact ih (h.putc c)

theorem foldl_size (b : SprintfBuffer) (out : List (BitVec 32)) :
    (out.foldl putc b).iv_size = b.iv_size ∧ (out.foldl putc b).iv_buffer = b.iv_buffer := by
  induction out generalizing b with
  | nil => exact ⟨rfl, rfl⟩
  | cons c out ih =>
    obtain ⟨hsize, hbuffer⟩ := ih (b.putc c)
    exact ⟨hsize.trans (putc_size b c), hbuffer.trans (putc_buffer b c)⟩

theorem Holds.nullTerminate (h : b.Holds m cs) :
    m.SameOutside b.nullTerminate.mem b.iv_buffer b.iv_size ∧
      (0 < b.iv_size →
        b.nullTerminate.mem (b.iv_buffer + min cs.length (b.iv_size - 1)) = 0 ∧
          ∀ i c, i < b.iv_size - 1 → cs[i]? = some c →
            b.nullTerminate.mem (b.iv_buffer + i) = intToChar c) := by
  by_cases hsize : 0 < b.iv_size
  · have hmem : b.nullTerminate.mem =
        b.mem.put (b.iv_buffer + min cs.length (b.iv_size - 1)) 0 := by
      unfold SprintfBuffer.nullTerminate
      rw [if_pos hsize, ← h.pos]
      by_cases hfull : b.iv_pos ≥ b.iv_size
      · rw [if_pos hfull, Nat.min_eq_right (by omega), SprintfBuffer.putc, if_neg (by decide),
          if_pos (Nat.sub_lt hsize Nat.one_pos)]
        rfl
      · rw [if_neg hfull, Nat.min_eq_left (by omega), SprintfBuffer.putc, if_neg (by decide),
          if_pos (Nat.lt_of_not_le hfull)]
        rfl
    rw [hmem]
    refine ⟨fun x hx => ?_, fun _ => ⟨Mem.put_same _ _ _, fun i c hi hc => ?_⟩⟩
    · rw [Mem.put_of_ne _ (by omega)]
      exact h.frame x hx
    · have hlt : i < cs.length := (List.getElem?_eq_some_iff.mp hc).1
      rw [Mem.put_of_ne _ (by omega)]
      exact h.chars i c (by omega) hc
  · have hsame : b.nullTerminate = b := if_neg hsize
    rw [hsame]
    exact ⟨h.frame, fun hpos => absurd hpos hsize⟩

end SprintfBuffer

/-! ## The results -/

/-- Without `%p` what `vasprintf` returns is the number of calls of the console, as an `int`.
The buffer of `snprintf` holds the output with its backspaces done, as far as it fits, and a
terminator; no other byte is written. -/
theorem snprintf_stores {m : Mem} {str size : Nat}
    (hrun : vasprintf doubleString fmt args = some (p, left)) :
    ((∀ f ∈ directives fmt, f.type ≠ .TYPE_PTR) →
      p.returned = (BitVec.ofNat 32 p.out.length).signExtend 64 ∧
        (p.out.length < 2 ^ 31 → p.returned.toNat = p.out.length)) ∧
    ∃ m', snprintf doubleString m str size fmt args = some (m', p.returned.setWidth 32) ∧
      m.SameOutside m' str size ∧
      (0 < size → m' (str + min (edited p.out).length (size - 1)) = 0 ∧
        ∀ i c, i < size - 1 → (edited p.out)[i]? = some c → m' (str + i) = intToChar c) ∧
      (backspace ∉ p.out → edited p.out = p.out) := by
  constructor
  · intro hptr
    have hcount := counted_vasprintf hptr hrun
    unfold Printed.returned
    rw [hcount]
    refine ⟨rfl, fun hlt => ?_⟩
    have hmsb : (BitVec.ofNat 32 p.out.length).msb = false := by
      rw [BitVec.msb_eq_decide, BitVec.toNat_ofNat]
      exact decide_eq_false (by omega)
    rw [BitVec.signExtend_eq_setWidth_of_msb_false hmsb, BitVec.toNat_setWidth, BitVec.toNat_ofNat]
    omega
  · have hstart : (⟨0, size, str, m⟩ : SprintfBuffer).Holds m [] :=
      ⟨rfl, fun i c _ hc => absurd hc.symm (Option.some_ne_none _), fun _ _ => rfl⟩
    obtain ⟨hsize, hbuffer⟩ := SprintfBuffer.foldl_size ⟨0, size, str, m⟩ p.out
    obtain ⟨hframe, hstored⟩ := (hstart.foldl p.out).nullTerminate
    rw [hsize, hbuffer] at hframe hstored
    refine ⟨_, ?_, hframe, hstored, edited_of_notMem⟩
    unfold snprintf
    rw [hrun]
    rfl

/-- Three characters, of which two fit. -/
theorem snprintf_stores_two : ∃ m' : Mem,
    snprintf (fun _ : Unit => []) (fun _ => 255) 100 3 [ch 'x', ch '%', ch 'd', ch 'y'] [.int 7] =
      some (m', 3#32) ∧ m' 100 = ch 'x' ∧ m' 101 = ch '7' ∧ m' 102 = 0 ∧ m' 103 = 255 := by
  have hrun : vasprintf (fun _ : Unit => []) [ch 'x', ch '%', ch 'd', ch 'y'] [.int 7] =
      some (ofChars [ch 'x', ch '7', ch 'y'], []) := rfl
  obtain ⟨-, m', hm', hframe, hstored, -⟩ := @snprintf_stores _ _ _ _ _ _ (fun _ => 255) 100 3
    hrun
  obtain ⟨hterminator, hchars⟩ := hstored (by decide)
  exact ⟨m', hm', hchars 0 _ (by decide) rfl, hchars 1 _ (by decide) rfl, hterminator,
    hframe 103 (by decide)⟩

/-- A backspace takes the `b` away, and 2^31 characters are a negative count. -/
theorem snprintf_backspace :
    (((snprintf (fun _ : Unit => []) (fun _ => 255) 100 10 [ch 'a', ch 'b', 8, ch 'c'] []).map
        fun r => r.1 101) = some (ch 'c')) ∧
      ((vasprintf (fun _ : Unit => []) [ch 'a', ch 'b', 8, ch 'c'] []).map
        fun r => r.1.chars) = some [ch 'a', ch 'b', 8, ch 'c'] ∧
      ∃ p left, vasprintf (fun _ : Unit => []) (ch '%' :: [2, 1, 4, 7, 4, 8, 3, 6, 4, 8].map digit ++
          [ch 'c']) [.int 0] = some (p, left) ∧
        p.out.length = 2 ^ 31 ∧ p.returned.toNat = 2 ^ 64 - 2 ^ 31 := by
  refine ⟨by decide, by decide, ?_⟩
  let s : Iso.Spec := ⟨[], .number (2 ^ 31) (by decide), none, .c⟩
  have hright : (Iso.Directive.conversion s).Right ([.int 0] : List (Arg Unit)) :=
    ⟨by decide, by decide, Or.inl (by decide)⟩
  obtain ⟨p, hchars, hrun⟩ := Iso.vasprintf_right (fun _ : Unit => []) [] hright rfl
  have hrun' : vasprintf (fun _ : Unit => []) ((Iso.Directive.conversion s).text ++ []) [.int 0] =
      some (p.append Printed.nothing, []) := hrun
  have hlen : (p.append Printed.nothing).out.length = 2 ^ 31 := by
    have hfield := (congrArg List.length hchars).trans (Iso.length_field false (2 ^ 31) _)
    rw [Printed.chars, length_map] at hfield
    rw [Printed.append, length_append, hfield]
    rfl
  have hcount := counted_vasprintf (by decide) hrun'
  refine ⟨_, _, hrun', hlen, ?_⟩
  unfold Printed.returned
  rw [hcount, hlen]
  decide

end Hostboot.Libc
