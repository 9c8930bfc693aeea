import Hostboot.Errl.Src
import Hostboot.Errl.DuplicateTraces

/-!
# Flattening an error log

`ErrlEntry::flatten` writes an error log into a buffer, and `unflatten` makes an
entry of it again.  Six sections come first and have to fit.  The user-defined
sections follow in three passes over `iv_SectionVector`: the callouts, the other
sections, and, once they are merged, the traces.  A pass stops when the section
count of the private header is used up.  A section that does not fit is skipped
when the log may be truncated, and otherwise the flatten fails.  When fewer
sections were written than the entry had at the start, the private header is
written again with their number.

The length of a section is a field of 16 bits.  The round trip needs the lengths
to fit in, which sections of less than 64 KB do but for the last few bytes.
-/

namespace Hostboot.Errl.Pel

open Hostboot.Lib List

/-! ## The model -/

def NON_UD_SECTION_CNT : Nat := 6

def MAX_SECTIONS_ALLOWED : Nat := 0xFF

structure ErrlEntry where
  prvt : ErrlPrvt
  user : ErrlUH
  src : ErrlSrc
  extended : ErrlEH
  ed : ErrlED
  mt : ErrlMT
  /-- `iv_SectionVector`. -/
  sections : List ErrlUD
  /-- Whether other logs hang on this one, or this one on another. -/
  aggregated : Bool

/-- The place in the buffer: the memory, `pBuffer` and `l_sizeRemaining`. -/
structure Out where
  mem : Mem
  ptr : Nat
  left : Nat

/-- Go on behind a section of `cb` bytes. -/
def Out.advance (o : Out) (cb : Nat) (mem : Mem) : Out := ⟨mem, o.ptr + cb, o.left - cb⟩

/-- `flattener`: what a section returned that has to fit.  The flag is whether all
have fitted so far; the sections behind one that did not are not tried. -/
def flattener (w : Bool × Out) (r : Nat × Mem) : Bool × Out :=
  if w.1 = false then w
  else if r.1 = 0 then (false, { w.2 with mem := r.2 })
  else (true, w.2.advance r.1 r.2)

/-- What a pass keeps count of.  `ok` is whether `l_flatSize` is not zero. -/
structure Flat where
  out : Out
  sectionsLeft : Nat
  flattenedSections : Nat
  ok : Bool

/-- A pass over the sections that flattens those of one kind.  The sections come
back with the lengths that were noted in their headers. -/
def flattenSections (kind : ErrlUD → Bool) (truncate : Bool) :
    List ErrlUD → Flat → List ErrlUD × Flat
  | [], s => ([], s)
  | u :: us, s =>
    if s.ok = false ∨ s.sectionsLeft = 0 then (u :: us, s)
    else if kind u then
      let r := u.flatten s.out.mem s.out.ptr s.out.left
      if r.1 = 0 then
        let rest := flattenSections kind truncate us { s with ok := truncate }
        (u :: rest.1, rest.2)
      else
        let rest := flattenSections kind truncate us
          { s with
            out := s.out.advance r.1 r.2.1
            sectionsLeft := s.sectionsLeft - 1
            flattenedSections := s.flattenedSections + 1 }
        (r.2.2 :: rest.1, rest.2)
    else
      let rest := flattenSections kind truncate us s
      (u :: rest.1, rest.2)

/-- What a flatten leaves: the number it returns, the memory and the entry. -/
structure Flattened where
  size : Nat
  mem : Mem
  entry : ErrlEntry

/-- Whether a section is neither a callout nor a trace. -/
def ErrlUD.isOther (u : ErrlUD) : Bool := !(u.isCallout || u.isTrace)

namespace ErrlEntry

def flattenedSize (e : ErrlEntry) : Nat :=
  ErrlPrvt.flatSize + ErrlUH.flatSize + e.src.flatSize + e.extended.flatSize + 0xD4 + 0x1C +
    (e.sections.map ErrlUD.flatSize).sum

/-- Set the section count of the private header. -/
def setSctns (e : ErrlEntry) (n : UInt8) : ErrlEntry :=
  { e with prvt := { e.prvt with sctns := n } }

/-- The sections that have to fit, and whether they did. -/
def flattenFixed (stack : Nat → UInt8) (e : ErrlEntry) (o : Out) : Bool × ErrlEntry × Out :=
  let w := flattener (true, o) (e.prvt.flatten o.mem o.ptr o.left)
  let w := flattener w (e.user.flatten w.2.mem w.2.ptr w.2.left)
  let ps := e.src.flatten stack w.2.mem w.2.ptr w.2.left
  let e := if w.1 then { e with src := ps.2.2 } else e
  let w := flattener w (ps.1, ps.2.1)
  let w := flattener w (e.extended.flatten w.2.mem w.2.ptr w.2.left)
  let w := flattener w (e.ed.flatten w.2.mem w.2.ptr w.2.left)
  let w := flattener w (e.mt.flatten w.2.mem w.2.ptr w.2.left)
  (w.1, e, w.2)

/-- The end of `flatten`: the private header once more when its count is wrong. -/
def finish (e : ErrlEntry) (s : Flat) (p size startingSectionCount : Nat) : Flattened :=
  if s.ok = false then ⟨0, s.out.mem, e⟩
  else if s.flattenedSections ≠ startingSectionCount then
    let e := e.setSctns (UInt8.ofNat (NON_UD_SECTION_CNT + s.flattenedSections))
    let r := e.prvt.flatten s.out.mem p ErrlPrvt.flatSize
    if r.1 = 0 then ⟨0, r.2, e⟩ else ⟨size - s.out.left, r.2, e⟩
  else ⟨size - s.out.left, s.out.mem, e⟩

/-- `flatten` into the `size` bytes from `p` on. -/
def flatten (stack : Nat → UInt8) (e : ErrlEntry) (m : Mem) (p size : Nat) (truncate : Bool) :
    Option Flattened :=
  if size < e.flattenedSize ∧ truncate = false then some ⟨0, m, e⟩
  else
    let startingSectionCount := e.sections.length
    let tooMany := MAX_SECTIONS_ALLOWED < startingSectionCount + NON_UD_SECTION_CNT
    let e := e.setSctns
      (if tooMany then 0xFF else UInt8.ofNat (NON_UD_SECTION_CNT + startingSectionCount))
    let sectionsLeft :=
      if tooMany then MAX_SECTIONS_ALLOWED - NON_UD_SECTION_CNT else startingSectionCount
    let r := e.flattenFixed stack ⟨m, p, size⟩
    if r.1 = false then some ⟨0, r.2.2.mem, r.2.1⟩
    else
      let callouts := flattenSections ErrlUD.isCallout truncate e.sections
        ⟨r.2.2, sectionsLeft, 0, true⟩
      let others := flattenSections ErrlUD.isOther truncate callouts.1 callouts.2
      (removeDuplicateTraces others.1).map fun sections =>
        let traces := flattenSections ErrlUD.isTrace truncate sections others.2
        finish { r.2.1 with sections := traces.1 } traces.2 p size startingSectionCount

/-- The loop of `unflatten` over the sections that the private header counts: its
return code and the sections. -/
def unflattenSections (len : Nat) : Nat → Bytes → Nat → Option (Int × List ErrlUD)
  | 0, _, _ => some (0, [])
  | n + 1, bs, consumed =>
    if consumed < len then do
      -- Only the id is read before it is compared.
      let (sid, _) ← Reader.u16 bs
      if sid ≠ ERRL_SID_USER_DEFINED then some (-1, [])
      else
        let (p, _) ← ErrlSctnHdr.read bs
        if p.slen.toNat < ErrlSctnHdr.flatSize ∨ bs.length < p.slen.toNat then none
        else
          let data := (bs.drop ErrlSctnHdr.flatSize).take (p.slen.toNat - ErrlSctnHdr.flatSize)
          let (rc, uds) ← unflattenSections len n (bs.drop p.slen.toNat) (consumed + p.slen.toNat)
          some (rc, ErrlUD.new data p.compId p.ver p.sst :: uds)
    else some (0, [])

/-- `unflatten`: the return code and the entry. -/
def unflatten (e : ErrlEntry) (bs : Bytes) (len : Nat) : Option (Int × ErrlEntry) :=
  if e.aggregated then some (-1, e)
  else do
    let (prvt, consumed) ← ErrlPrvt.unflatten bs
    let bs := bs.drop consumed
    let (user, used) ← ErrlUH.unflatten bs
    let bs := bs.drop used
    let consumed := consumed + used
    let (src, used) ← e.src.unflatten bs
    let bs := bs.drop used
    let consumed := consumed + used
    let (extended, used) ← e.extended.unflatten bs
    let bs := bs.drop used
    let consumed := consumed + used
    let (ed, used) ← Raw.unflatten 0xD4 bs
    let bs := bs.drop used
    let consumed := consumed + used
    let (mt, used) ← Raw.unflatten 0x1C bs
    let bs := bs.drop used
    let consumed := consumed + used
    let (rc, sections) ← unflattenSections len (prvt.sctns.toNat - NON_UD_SECTION_CNT) bs consumed
    let rc := if sections.length + NON_UD_SECTION_CNT ≠ prvt.sctns.toNat then -1 else rc
    some (rc, ⟨prvt, user, src, extended, ed, mt, sections, e.aggregated⟩)

/-- What holds of every entry: the lengths that the constructors have put into
the headers, and the SRC. -/
structure Ok (e : ErrlEntry) : Prop where
  prvt : e.prvt.header.slen = 48
  user : e.user.header.slen = 24
  src : e.src.Ok
  sections : ∀ u ∈ e.sections, u.header.sid = ERRL_SID_USER_DEFINED

/-- An entry that a log may be read into. -/
structure Fresh (e : ErrlEntry) : Prop where
  aggregated : e.aggregated = false
  coVec : e.src.coVec = []
  deconfig : e.src.deconfig = false
  gard : e.src.gard = false

end ErrlEntry

/-! ## The sections that fit -/

/-- The sections that are taken from a list, one after the other, while no more
than `count` are taken and each fits in the space that is left. -/
def fitting : Nat → Nat → List ErrlUD → List ErrlUD
  | _, _, [] => []
  | space, count, u :: us =>
    if count = 0 then []
    else if u.flatSize ≤ space then u :: fitting (space - u.flatSize) (count - 1) us
    else fitting space count us

attribute [grind =] fitting

/-- The bytes that sections take. -/
def sizes (us : List ErrlUD) : Nat := (us.map ErrlUD.flatSize).sum

@[simp] theorem sizes_cons (u : ErrlUD) (us : List ErrlUD) :
    sizes (u :: us) = u.flatSize + sizes us := by
  rw [sizes, map_cons, sum_cons, sizes]

variable {u : ErrlUD} {us : List ErrlUD} {kind : ErrlUD → Bool} {s : Flat} {truncate : Bool}
  {cb : Nat}

theorem flatSize_le_sizes (h : u ∈ us) : u.flatSize ≤ sizes us := by
  induction us with
  | nil => exact absurd h not_mem_nil
  | cons v us ih =>
    rw [sizes_cons]
    rcases mem_cons.mp h with rfl | h
    · exact Nat.le_add_right _ _
    · exact Nat.le_trans (ih h) (Nat.le_add_left _ _)

theorem length_flatMap_udBytes (us : List ErrlUD) :
    (us.flatMap ErrlUD.bytes).length = sizes us := by
  rw [length_flatMap, sizes]
  congr 1
  exact map_congr_left fun u _ => u.length_bytes

theorem fitting_zero (space : Nat) (us : List ErrlUD) : fitting space 0 us = [] := by
  cases us with
  | nil => rfl
  | cons u us => rw [fitting, if_pos rfl]

theorem fitting_sublist (space count : Nat) (us : List ErrlUD) :
    (fitting space count us).Sublist us := by
  fun_induction fitting space count us with
  | case1 => exact .refl _
  | case2 => exact nil_sublist _
  | case3 space count u us _ _ ih => exact ih.cons_cons u
  | case4 space count u us _ _ ih => exact ih.cons u

theorem length_fitting_le (space count : Nat) (us : List ErrlUD) :
    (fitting space count us).length ≤ count := by
  fun_induction fitting space count us with
  | case1 => exact Nat.zero_le _
  | case2 => exact Nat.zero_le _
  | case3 space count u us hcount _ ih =>
    rw [length_cons]
    omega
  | case4 space count u us _ _ ih => exact ih

theorem sizes_fitting_le (space count : Nat) (us : List ErrlUD) :
    sizes (fitting space count us) ≤ space := by
  fun_induction fitting space count us with
  | case1 => exact Nat.zero_le _
  | case2 => exact Nat.zero_le _
  | case3 space count u us _ hfits ih =>
    rw [sizes_cons]
    omega
  | case4 space count u us _ _ ih => exact ih

/-- One pass over two groups is a pass over each, the second with what the first
has left. -/
theorem fitting_append (space count : Nat) (us vs : List ErrlUD) :
    fitting space count (us ++ vs) = fitting space count us ++
      fitting (space - sizes (fitting space count us))
        (count - (fitting space count us).length) vs := by
  fun_induction fitting space count us with
  | case1 => rfl
  | case2 space u us =>
    rw [fitting_zero, length_nil, Nat.sub_zero, fitting_zero]
    rfl
  | case3 space count u us hcount hfits ih =>
    rw [cons_append, fitting, if_neg hcount, if_pos hfits, ih, sizes_cons, length_cons,
      Nat.sub_sub, Nat.sub_sub, Nat.add_comm 1]
    rfl
  | case4 space count u us hcount hfits ih =>
    rw [cons_append, fitting, if_neg hcount, if_neg hfits, ih]

theorem fitting_count {space count count' : Nat} (h : us.length ≤ count) (h' : us.length ≤ count') :
    fitting space count us = fitting space count' us := by
  induction us generalizing space count count' with
  | nil => rfl
  | cons u us ih =>
    rw [length_cons] at h h'
    have hcount : count ≠ 0 := by omega
    have hcount' : count' ≠ 0 := by omega
    have htaken : fitting (space - u.flatSize) (count - 1) us =
        fitting (space - u.flatSize) (count' - 1) us := ih (by omega) (by omega)
    have hskipped : fitting space count us = fitting space count' us := ih (by omega) (by omega)
    rw [fitting, fitting, if_neg hcount, if_neg hcount', htaken, hskipped]

/-! ## What is written -/

/-- The writer has written `bs` at `p`, in a buffer of `size` bytes, and nothing
behind them but in the first `reach` bytes. -/
structure Wrote (m : Mem) (p size reach : Nat) (o : Out) (bs : Bytes) : Prop where
  holds : o.mem.Holds p bs
  ptr : o.ptr = p + bs.length
  left : o.left + bs.length = size
  outside : Mem.SameOutside m o.mem p (max reach bs.length)

namespace Wrote

variable {m : Mem} {p size reach : Nat} {o : Out} {bs : Bytes}

theorem start (m : Mem) (p size : Nat) : Wrote m p size 0 ⟨m, p, size⟩ [] where
  holds := Mem.holds_nil m p
  ptr := rfl
  left := rfl
  outside := Mem.SameOutside.refl m p _

theorem advance (h : Wrote m p size reach o bs) {b : Bytes} {m' : Mem} {k : Nat}
    (hb : m'.Holds o.ptr b) (hsame : Mem.SameOutside o.mem m' o.ptr k) (hle : b.length ≤ k)
    (hfits : k ≤ o.left) :
    Wrote m p size (max reach (bs.length + k)) (o.advance b.length m') (bs ++ b) := by
  have hptr := h.ptr
  have hleft := h.left
  refine ⟨?_, ?_, ?_, ?_⟩
  · refine Mem.holds_append.mpr ⟨h.holds.of_sameOutside hsame (by omega), ?_⟩
    rw [← hptr]
    exact hb
  · rw [Out.advance, length_append]
    show o.ptr + b.length = _
    omega
  · rw [Out.advance, length_append]
    show o.left - b.length + _ = _
    omega
  · rw [length_append]
    refine (h.outside.mono (Nat.le_refl p) (by omega)).trans (hsame.mono (by omega) ?_)
    omega

theorem write (h : Wrote m p size reach o bs) (b : Bytes) (hfits : b.length ≤ o.left) :
    Wrote m p size reach (o.advance b.length (o.mem.write o.ptr b)) (bs ++ b) := by
  have hnext := h.advance (Mem.holds_write o.mem o.ptr b) (Mem.write_sameOutside o.mem o.ptr b)
    (Nat.le_refl _) hfits
  refine ⟨hnext.holds, hnext.ptr, hnext.left, hnext.outside.mono (Nat.le_refl p) ?_⟩
  rw [length_append]
  omega

theorem replace (h : Wrote m p size reach o (bs ++ bs')) {b : Bytes} (hlen : b.length = bs.length) :
    Wrote m p size reach { o with mem := o.mem.write p b } (b ++ bs') := by
  have hrest := (Mem.holds_append.mp h.holds).2
  have hsame := Mem.write_sameOutside o.mem p b
  have hlength : (b ++ bs').length = (bs ++ bs').length := by
    rw [length_append, length_append, hlen]
  refine ⟨?_, ?_, ?_, ?_⟩
  · refine Mem.holds_append.mpr ⟨Mem.holds_write o.mem p b, ?_⟩
    rw [hlen]
    exact hrest.of_sameOutside_behind hsame (by omega)
  · rw [hlength]
    exact h.ptr
  · rw [hlength]
    exact h.left
  · rw [hlength]
    refine h.outside.trans (hsame.mono (Nat.le_refl p) ?_)
    rw [length_append]
    omega

end Wrote

namespace ErrlUD

@[simp] theorem isTrace_sized (u : ErrlUD) : u.sized.isTrace = u.isTrace := rfl

@[simp] theorem isOther_sized (u : ErrlUD) : u.sized.isOther = u.isOther := rfl

end ErrlUD

theorem filter_flattenSections {other : ErrlUD → Bool}
    (hsized : ∀ u : ErrlUD, other u.sized = other u) (hkind : ∀ u, kind u = true → other u = false)
    (truncate : Bool) (us : List ErrlUD) (s : Flat) :
    (flattenSections kind truncate us s).1.filter other = us.filter other := by
  fun_induction flattenSections kind truncate us s with
  | case1 => rfl
  | case2 => rfl
  | case3 u us s hgo hu r hr rest ih =>
    rw [filter_cons, filter_cons, ih]
  | case4 u us s hgo hu r hr rest ih =>
    have hsame : r.2.2 = u ∨ r.2.2 = u.sized := by
      show (u.flatten s.out.mem s.out.ptr s.out.left).2.2 = u ∨
        (u.flatten s.out.mem s.out.ptr s.out.left).2.2 = u.sized
      unfold ErrlUD.flatten
      split
      · exact .inr rfl
      · exact .inl rfl
    have hother : other r.2.2 = false := by
      rcases hsame with heq | heq
      · rw [heq]
        exact hkind u hu
      · rw [heq, hsized]
        exact hkind u hu
    rw [filter_cons_of_neg (by rw [hother]; decide),
      filter_cons_of_neg (by rw [hkind u hu]; decide), ih]
  | case5 u us s hgo hu rest ih =>
    rw [filter_cons, filter_cons, ih]

/-- What a pass has done that did not fail. -/
structure Passed (kind : ErrlUD → Bool) (truncate : Bool) (us : List ErrlUD) (m : Mem)
    (p size reach : Nat) (bs : Bytes) (s s' : Flat) : Prop where
  ok : s.ok = true
  wrote : Wrote m p size reach s'.out
    (bs ++ (fitting s.out.left s.sectionsLeft (us.filter kind)).flatMap ErrlUD.bytes)
  sectionsLeft : s'.sectionsLeft =
    s.sectionsLeft - (fitting s.out.left s.sectionsLeft (us.filter kind)).length
  flattenedSections : s'.flattenedSections =
    s.flattenedSections + (fitting s.out.left s.sectionsLeft (us.filter kind)).length
  complete : truncate = false →
    fitting s.out.left s.sectionsLeft (us.filter kind) = (us.filter kind).take s.sectionsLeft

theorem flattenSections_of_not_ok (kind : ErrlUD → Bool) (truncate : Bool) (us : List ErrlUD)
    (h : s.ok = false) : flattenSections kind truncate us s = (us, s) := by
  cases us with
  | nil => rfl
  | cons u us => rw [flattenSections, if_pos (.inl h)]

theorem flattenSections_passed {m : Mem} {p size reach : Nat} {bs : Bytes}
    (hwrote : Wrote m p size reach s.out bs)
    (hok : (flattenSections kind truncate us s).2.ok = true) :
    Passed kind truncate us m p size reach bs s (flattenSections kind truncate us s).2 := by
  induction us generalizing s bs with
  | nil =>
    rw [flattenSections] at hok ⊢
    refine ⟨hok, ?_, rfl, rfl, fun _ => ?_⟩
    · rw [filter_nil, fitting, flatMap_nil, append_nil]
      exact hwrote
    · rw [filter_nil, fitting, take_nil]
  | cons u us ih =>
    by_cases hsok : s.ok = false
    · rw [flattenSections_of_not_ok _ _ _ hsok] at hok
      exact absurd hok (by rw [hsok]; decide)
    rw [Bool.not_eq_false] at hsok
    by_cases hleft : s.sectionsLeft = 0
    · rw [flattenSections, if_pos (.inr hleft)]
      have hnone : fitting s.out.left s.sectionsLeft ((u :: us).filter kind) = [] := by
        rw [hleft, fitting_zero]
      refine ⟨hsok, ?_, ?_, ?_, fun _ => ?_⟩
      · rw [hnone, flatMap_nil, append_nil]
        exact hwrote
      · rw [hnone]
        rfl
      · rw [hnone]
        rfl
      · rw [hnone, hleft, take_zero]
    have hgo : ¬ (s.ok = false ∨ s.sectionsLeft = 0) := by
      rw [hsok]
      simp [hleft]
    by_cases hkind : kind u = true
    · have hcons : (u :: us).filter kind = u :: us.filter kind := filter_cons_of_pos hkind
      by_cases hfits : u.flatSize ≤ s.out.left
      · -- the section is written
        have hflat : u.flatten s.out.mem s.out.ptr s.out.left =
            (u.flatSize, s.out.mem.write s.out.ptr u.bytes, u.sized) := by
          rw [ErrlUD.flatten, if_pos hfits]
        have hpos := u.flatSize_pos
        rw [flattenSections, if_neg hgo, if_pos hkind, hflat] at hok ⊢
        dsimp only at hok ⊢
        rw [if_neg (by omega)] at hok ⊢
        have hwrote' := hwrote.write u.bytes (by rw [ErrlUD.length_bytes]; exact hfits)
        rw [ErrlUD.length_bytes] at hwrote'
        have hpassed := ih hwrote' hok
        have hfit : fitting s.out.left s.sectionsLeft ((u :: us).filter kind) =
            u :: fitting (s.out.left - u.flatSize) (s.sectionsLeft - 1) (us.filter kind) := by
          rw [hcons, fitting, if_neg hleft, if_pos hfits]
        refine ⟨hsok, ?_, ?_, ?_, fun htruncate => ?_⟩
        · rw [hfit, flatMap_cons, ← append_assoc]
          exact hpassed.wrote
        · rw [hfit, hpassed.sectionsLeft, length_cons]
          show s.sectionsLeft - 1 - _ = _
          rw [Nat.sub_sub, Nat.add_comm 1]
          rfl
        · rw [hfit, hpassed.flattenedSections, length_cons]
          show s.flattenedSections + 1 + _ = _
          rw [Nat.add_assoc, Nat.add_comm 1]
          rfl
        · have hrest := hpassed.complete htruncate
          obtain ⟨count, hcount⟩ := Nat.exists_eq_succ_of_ne_zero hleft
          rw [hfit, hcons, hcount, take_succ_cons]
          rw [hcount] at hrest
          exact congrArg (u :: ·) hrest
      · -- the section is skipped
        have hflat : u.flatten s.out.mem s.out.ptr s.out.left = (0, s.out.mem, u) := by
          rw [ErrlUD.flatten, if_neg hfits]
        rw [flattenSections, if_neg hgo, if_pos hkind, hflat] at hok ⊢
        dsimp only at hok ⊢
        rw [if_pos rfl] at hok ⊢
        have hpassed := ih (s := { s with ok := truncate }) hwrote hok
        have hfit : fitting s.out.left s.sectionsLeft ((u :: us).filter kind) =
            fitting s.out.left s.sectionsLeft (us.filter kind) := by
          rw [hcons, fitting, if_neg hleft, if_neg hfits]
        refine ⟨hsok, ?_, ?_, ?_, fun htruncate => ?_⟩
        · rw [hfit]
          exact hpassed.wrote
        · rw [hfit]
          exact hpassed.sectionsLeft
        · rw [hfit]
          exact hpassed.flattenedSections
        · have htrue : truncate = true := hpassed.ok
          rw [htruncate] at htrue
          exact absurd htrue (by decide)
    · have hcons : (u :: us).filter kind = us.filter kind := filter_cons_of_neg hkind
      rw [flattenSections, if_neg hgo, if_neg hkind] at hok ⊢
      have hpassed := ih hwrote hok
      refine ⟨hsok, ?_, ?_, ?_, fun htruncate => ?_⟩
      · rw [hcons]
        exact hpassed.wrote
      · rw [hcons]
        exact hpassed.sectionsLeft
      · rw [hcons]
        exact hpassed.flattenedSections
      · rw [hcons]
        exact hpassed.complete htruncate

namespace ErrlEntry

/-- The sections in front of the user-defined ones. -/
def fixedBytes (stack : Nat → UInt8) (e : ErrlEntry) : Bytes :=
  e.prvt.bytes ++ (e.user.bytes ++ (e.src.bytes stack ++
    (e.extended.bytes ++ (e.ed.iv ++ e.mt.iv))))

/-- Their size. -/
def fixedSize (e : ErrlEntry) : Nat :=
  ErrlPrvt.flatSize + (ErrlUH.flatSize + (e.src.flattened.flatSize +
    (e.extended.flatSize + (0xD4 + 0x1C))))

theorem length_fixedBytes (stack : Nat → UInt8) {e : ErrlEntry} (h : e.Ok) :
    (e.fixedBytes stack).length = e.fixedSize := by
  rw [fixedBytes, fixedSize]
  simp only [length_append, ErrlPrvt.length_bytes, ErrlUH.length_bytes,
    ErrlSrc.length_bytes stack h.src.built, ErrlEH.length_bytes, e.ed.size, e.mt.size]

end ErrlEntry

/-! ### The sections that have to fit -/

theorem flattener_ok {w : Bool × Out} {r : Nat × Mem} (h : (flattener w r).1 = true) :
    w.1 = true ∧ r.1 ≠ 0 ∧ (flattener w r).2 = w.2.advance r.1 r.2 := by
  unfold flattener at h ⊢
  by_cases hw : w.1 = false
  · rw [if_pos hw, hw] at h
    exact absurd h (by decide)
  · rw [if_neg hw] at h ⊢
    by_cases hr : r.1 = 0
    · rw [if_pos hr] at h
      exact absurd (show false = true from h) (by decide)
    · rw [if_neg hr]
      exact ⟨Bool.not_eq_false _ ▸ hw, hr, rfl⟩

/-- What a section returns that writes its bytes when they fit. -/
structure Writes (r : Nat × Mem) (m : Mem) (p cb : Nat) (bs : Bytes) : Prop where
  fits : bs.length ≤ cb
  eq : r = (bs.length, m.write p bs)

theorem ErrlPrvt.flatten_writes {s : ErrlPrvt} (h : s.header.slen = 48) {m : Mem} {p : Nat}
    (hr : (s.flatten m p cb).1 ≠ 0) : Writes (s.flatten m p cb) m p cb s.bytes := by
  have hslen : s.header.slen.toNat = 48 := by
    rw [h]
    rfl
  have hlen : s.bytes.length = 48 := s.length_bytes
  rw [ErrlPrvt.flatten, hslen] at hr ⊢
  by_cases hfits : cb < 48
  · rw [if_pos hfits] at hr
    exact absurd rfl hr
  · have hheader : ¬ cb < ErrlSctnHdr.flatSize := by
      rw [ErrlSctnHdr.flatSize]
      omega
    rw [if_neg hfits, if_neg hheader]
    exact ⟨by omega, by rw [hlen]⟩

theorem ErrlUH.flatten_writes {s : ErrlUH} (h : s.header.slen = 24) {m : Mem} {p : Nat}
    (hr : (s.flatten m p cb).1 ≠ 0) : Writes (s.flatten m p cb) m p cb s.bytes := by
  have hslen : s.header.slen.toNat = 24 := by
    rw [h]
    rfl
  have hlen : s.bytes.length = 24 := s.length_bytes
  rw [ErrlUH.flatten, hslen] at hr ⊢
  by_cases hfits : 24 ≤ cb
  · rw [if_pos hfits]
    exact ⟨by omega, by rw [hlen]⟩
  · rw [if_neg hfits] at hr
    exact absurd rfl hr

theorem ErrlEH.flatten_writes {s : ErrlEH} {m : Mem} {p : Nat} (hr : (s.flatten m p cb).1 ≠ 0) :
    Writes (s.flatten m p cb) m p cb s.bytes := by
  rw [ErrlEH.flatten] at hr ⊢
  by_cases hfits : s.flatSize ≤ cb
  · rw [if_pos hfits]
    exact ⟨by rw [ErrlEH.length_bytes]; exact hfits, by rw [ErrlEH.length_bytes]⟩
  · rw [if_neg hfits] at hr
    exact absurd rfl hr

theorem Raw.flatten_writes {n : Nat} {s : Raw n} {m : Mem} {p : Nat} (hr : (s.flatten m p cb).1 ≠ 0)
    : Writes (s.flatten m p cb) m p cb s.iv := by
  rw [Raw.flatten] at hr ⊢
  by_cases hfits : n ≤ cb
  · rw [if_pos hfits]
    exact ⟨by rw [s.size]; exact hfits, by rw [s.size]⟩
  · rw [if_neg hfits] at hr
    exact absurd rfl hr

theorem Wrote.flattener {m : Mem} {p size reach : Nat} {w : Bool × Out} {r : Nat × Mem}
    {bs b : Bytes} (h : Wrote m p size reach w.2 bs)
    (hr : Writes r w.2.mem w.2.ptr w.2.left b) (hok : (flattener w r).1 = true) :
    Wrote m p size reach (flattener w r).2 (bs ++ b) := by
  rw [(flattener_ok hok).2.2, hr.eq]
  exact h.write b hr.fits

namespace ErrlEntry

/-- When the fixed sections fit, they are written, and nothing is touched behind
them but the place of callouts that were cut. -/
theorem flattenFixed_spec (stack : Nat → UInt8) {e : ErrlEntry} (h : e.Ok) (m : Mem)
    (p size : Nat) (hok : (e.flattenFixed stack ⟨m, p, size⟩).1 = true) :
    Wrote m p size (72 + e.src.flatSize) (e.flattenFixed stack ⟨m, p, size⟩).2.2
        (e.fixedBytes stack) ∧
      72 + e.src.flatSize ≤ size ∧
      (e.flattenFixed stack ⟨m, p, size⟩).2.1 = { e with src := e.src.flattened } := by
  unfold flattenFixed at hok ⊢
  dsimp only at hok ⊢
  generalize hph : Pel.flattener (true, ⟨m, p, size⟩) (e.prvt.flatten m p size) = ph at hok ⊢
  generalize huh : Pel.flattener ph (e.user.flatten ph.2.mem ph.2.ptr ph.2.left) = uh at hok ⊢
  generalize hps : Pel.flattener uh ((e.src.flatten stack uh.2.mem uh.2.ptr uh.2.left).1,
    (e.src.flatten stack uh.2.mem uh.2.ptr uh.2.left).2.1) = ps at hok ⊢
  have hextended : (if uh.1 = true then
      { e with src := (e.src.flatten stack uh.2.mem uh.2.ptr uh.2.left).2.2 } else e).extended =
        e.extended := by split <;> rfl
  have hed : (if uh.1 = true then
      { e with src := (e.src.flatten stack uh.2.mem uh.2.ptr uh.2.left).2.2 } else e).ed =
        e.ed := by split <;> rfl
  have hmt : (if uh.1 = true then
      { e with src := (e.src.flatten stack uh.2.mem uh.2.ptr uh.2.left).2.2 } else e).mt =
        e.mt := by split <;> rfl
  rw [hextended, hed, hmt] at hok ⊢
  generalize heh : Pel.flattener ps (e.extended.flatten ps.2.mem ps.2.ptr ps.2.left) = eh at hok ⊢
  generalize hed' : Pel.flattener eh (e.ed.flatten eh.2.mem eh.2.ptr eh.2.left) = ed at hok ⊢
  -- every section has fitted
  have hmtok := flattener_ok hok
  have hedok := flattener_ok (hed' ▸ hmtok.1 : (Pel.flattener eh _).1 = true)
  have hehok := flattener_ok (heh ▸ hedok.1 : (Pel.flattener ps _).1 = true)
  have hpsok := flattener_ok (hps ▸ hehok.1 : (Pel.flattener uh _).1 = true)
  have huhok := flattener_ok (huh ▸ hpsok.1 : (Pel.flattener ph _).1 = true)
  have hphok := flattener_ok (hph ▸ huhok.1 : (Pel.flattener (true, ⟨m, p, size⟩) _).1 = true)
  have hwph : Wrote m p size 0 ph.2 ([] ++ e.prvt.bytes) := by
    rw [← hph]
    exact (Wrote.start m p size).flattener (ErrlPrvt.flatten_writes h.prvt hphok.2.1)
      (hph ▸ huhok.1)
  have hwuh : Wrote m p size 0 uh.2 ([] ++ e.prvt.bytes ++ e.user.bytes) := by
    rw [← huh]
    exact hwph.flattener (ErrlUH.flatten_writes h.user huhok.2.1) (huh ▸ hpsok.1)
  have h72 : ([] ++ e.prvt.bytes ++ e.user.bytes).length = 72 := by
    rw [nil_append, length_append, ErrlPrvt.length_bytes, ErrlUH.length_bytes]
    rfl
  -- the SRC clears more than it writes
  have hroom : e.src.flatSize ≤ uh.2.left := by
    by_contra hlt
    have hzero : (e.src.flatten stack uh.2.mem uh.2.ptr uh.2.left).1 = 0 := by
      rw [ErrlSrc.flatten, if_pos (by omega)]
    exact hpsok.2.1 hzero
  obtain ⟨hsize, hholds, hsame, hsrc⟩ :=
    ErrlSrc.flatten_spec stack h.src.built uh.2.mem uh.2.ptr uh.2.left hroom
  have hle : (e.src.bytes stack).length ≤ e.src.flatSize := by
    rw [ErrlSrc.length_bytes stack h.src.built]
    exact e.src.flattened_flatSize_le
  have hwps : Wrote m p size (72 + e.src.flatSize) ps.2
      ([] ++ e.prvt.bytes ++ e.user.bytes ++ e.src.bytes stack) := by
    have hadvance := hwuh.advance hholds hsame hle hroom
    rw [h72, Nat.zero_max, ← hsize] at hadvance
    rw [← hps, hpsok.2.2]
    exact hadvance
  have hweh : Wrote m p size (72 + e.src.flatSize) eh.2
      ([] ++ e.prvt.bytes ++ e.user.bytes ++ e.src.bytes stack ++ e.extended.bytes) := by
    rw [← heh]
    exact hwps.flattener (ErrlEH.flatten_writes hehok.2.1) (heh ▸ hedok.1)
  have hwed : Wrote m p size (72 + e.src.flatSize) ed.2
      ([] ++ e.prvt.bytes ++ e.user.bytes ++ e.src.bytes stack ++ e.extended.bytes ++ e.ed.iv) := by
    rw [← hed']
    exact hweh.flattener (Raw.flatten_writes hedok.2.1) (hed' ▸ hmtok.1)
  have hwmt := hwed.flattener (Raw.flatten_writes hmtok.2.1) hok
  refine ⟨?_, ?_, ?_⟩
  · have hbytes : e.fixedBytes stack = [] ++ e.prvt.bytes ++ e.user.bytes ++ e.src.bytes stack ++
        e.extended.bytes ++ e.ed.iv ++ e.mt.iv := by
      rw [fixedBytes]
      simp only [append_assoc, nil_append]
    rw [hbytes]
    exact hwmt
  · have hleft := hwuh.left
    omega
  · rw [if_pos hpsok.1, hsrc]

end ErrlEntry

/-! ### The passes -/

/-- The sections in the order in which they are flattened, with the traces of
each component in one. -/
def flattenOrder (sections : List ErrlUD) (groups : List (Bytes × List Bytes)) : List ErrlUD :=
  sections.filter ErrlUD.isCallout ++ sections.filter ErrlUD.isOther ++
    groups.map fun g => traceSection g.1 g.2

/-- The sections of a log that may have any number of them. -/
def MAX_UD_SECTIONS : Nat := MAX_SECTIONS_ALLOWED - NON_UD_SECTION_CNT

theorem ErrlUD.isTrace_of_isCallout (h : u.isCallout = true) : u.isTrace = false := by
  unfold ErrlUD.isCallout at h
  rw [Bool.and_eq_true, beq_iff_eq] at h
  rw [ErrlUD.isTrace, h.1]
  rfl

theorem ErrlUD.isOther_of_isCallout (h : u.isCallout = true) : u.isOther = false := by
  rw [ErrlUD.isOther, h, Bool.true_or, Bool.not_true]

theorem ErrlUD.isTrace_of_isOther (h : u.isOther = true) : u.isTrace = false := by
  rw [ErrlUD.isOther, Bool.not_eq_true', Bool.or_eq_false_iff] at h
  exact h.2

theorem length_kinds (us : List ErrlUD) :
    (us.filter ErrlUD.isCallout).length + (us.filter ErrlUD.isOther).length +
      (us.filter ErrlUD.isTrace).length = us.length := by
  induction us with
  | nil => rfl
  | cons u us ih =>
    rw [length_cons]
    by_cases hcallout : u.isCallout = true
    · rw [filter_cons_of_pos hcallout,
        filter_cons_of_neg (by rw [ErrlUD.isOther_of_isCallout hcallout]; decide),
        filter_cons_of_neg (by rw [ErrlUD.isTrace_of_isCallout hcallout]; decide),
        length_cons]
      omega
    · by_cases htrace : u.isTrace = true
      · have hother : u.isOther = false := by
          rw [ErrlUD.isOther, htrace, Bool.or_true, Bool.not_true]
        rw [filter_cons_of_neg hcallout, filter_cons_of_neg (by rw [hother]; decide),
          filter_cons_of_pos htrace, length_cons]
        omega
      · have hother : u.isOther = true := by
          rw [Bool.not_eq_true] at hcallout htrace
          rw [ErrlUD.isOther, hcallout, htrace]
          rfl
        rw [filter_cons_of_neg hcallout, filter_cons_of_pos hother,
          filter_cons_of_neg htrace, length_cons]
        omega

theorem isTrace_traceSection (comp : Bytes) (es : List Bytes) :
    (traceSection comp es).isTrace = true := rfl

theorem filter_removeDuplicateTraces {merged : List ErrlUD}
    (h : removeDuplicateTraces us = some merged) :
    ∃ groups, traceGroups (us.filter ErrlUD.isTrace) = some groups ∧
      merged = us.filter (fun u => !u.isTrace) ++ groups.map (fun g => traceSection g.1 g.2) ∧
      merged.filter ErrlUD.isTrace = groups.map fun g => traceSection g.1 g.2 := by
  unfold removeDuplicateTraces at h
  obtain ⟨groups, hgroups, hmerged⟩ := Option.bind_eq_some_iff.mp h
  have hmerged : us.filter (fun u => !u.isTrace) ++
      groups.map (fun g => traceSection g.1 g.2) = merged := Option.some.inj hmerged
  refine ⟨groups, hgroups, hmerged.symm, ?_⟩
  have hnone : (us.filter fun u => !u.isTrace).filter ErrlUD.isTrace = [] := by
    rw [filter_filter, filter_eq_nil_iff]
    intro u _
    cases u.isTrace <;> decide
  have hall : (groups.map fun g => traceSection g.1 g.2).filter ErrlUD.isTrace =
      groups.map fun g => traceSection g.1 g.2 := by
    rw [filter_eq_self]
    intro u hu
    obtain ⟨g, _, rfl⟩ := mem_map.mp hu
    exact isTrace_traceSection g.1 g.2
  rw [← hmerged, filter_append, hnone, hall, nil_append]

theorem sizes_append (us vs : List ErrlUD) : sizes (us ++ vs) = sizes us + sizes vs := by
  rw [sizes, map_append, sum_append, sizes, sizes]

theorem Passed.left {m : Mem} {p size reach : Nat} {bs : Bytes} {s' : Flat}
    (hwrote : Wrote m p size reach s.out bs) (h : Passed kind truncate us m p size reach bs s s') :
    s'.out.left = s.out.left - sizes (fitting s.out.left s.sectionsLeft (us.filter kind)) := by
  have hbefore := hwrote.left
  have hafter := h.wrote.left
  have hle := sizes_fitting_le s.out.left s.sectionsLeft (us.filter kind)
  rw [length_append, length_flatMap_udBytes] at hafter
  omega

theorem passes {vs ws : List ErrlUD} {kind1 kind2 kind3 : ErrlUD → Bool} {m : Mem}
    {p size reach : Nat} {bs : Bytes} {s0 s1 s2 s3 : Flat} (hwrote : Wrote m p size reach s0.out bs)
    (h1 : Passed kind1 truncate us m p size reach bs s0 s1) (h2 : Passed kind2 truncate vs m p size
      reach (bs ++ (fitting s0.out.left s0.sectionsLeft (us.filter kind1)).flatMap ErrlUD.bytes) s1
      s2) (h3 : Passed kind3 truncate ws m p size reach (bs ++ (fitting s0.out.left s0.sectionsLeft
    (us.filter kind1)).flatMap ErrlUD.bytes ++ (fitting s1.out.left s1.sectionsLeft (vs.filter
      kind2)).flatMap ErrlUD.bytes) s2 s3) :
    Wrote m p size reach s3.out (bs ++ (fitting s0.out.left s0.sectionsLeft
        (us.filter kind1 ++ vs.filter kind2 ++ ws.filter kind3)).flatMap ErrlUD.bytes) ∧
      s3.flattenedSections = s0.flattenedSections + (fitting s0.out.left s0.sectionsLeft
        (us.filter kind1 ++ vs.filter kind2 ++ ws.filter kind3)).length ∧
      (truncate = false → fitting s0.out.left s0.sectionsLeft
          (us.filter kind1 ++ vs.filter kind2 ++ ws.filter kind3) =
        (us.filter kind1 ++ vs.filter kind2 ++ ws.filter kind3).take s0.sectionsLeft) := by
  have hleft1 := h1.left hwrote
  have hleft2 := h2.left h1.wrote
  have htwo := fitting_append s0.out.left s0.sectionsLeft (us.filter kind1) (vs.filter kind2)
  rw [← hleft1, ← h1.sectionsLeft] at htwo
  have hall := fitting_append s0.out.left s0.sectionsLeft (us.filter kind1 ++ vs.filter kind2)
    (ws.filter kind3)
  have hspace : s0.out.left - sizes (fitting s0.out.left s0.sectionsLeft
      (us.filter kind1 ++ vs.filter kind2)) = s2.out.left := by
    rw [htwo, sizes_append, hleft2, hleft1, Nat.sub_sub]
  have hcount : s0.sectionsLeft - (fitting s0.out.left s0.sectionsLeft
      (us.filter kind1 ++ vs.filter kind2)).length = s2.sectionsLeft := by
    rw [htwo, length_append, h2.sectionsLeft, h1.sectionsLeft, Nat.sub_sub]
  rw [hspace, hcount, htwo] at hall
  refine ⟨?_, ?_, fun htruncate => ?_⟩
  · rw [hall, flatMap_append, flatMap_append]
    have hwrote3 := h3.wrote
    rw [append_assoc, append_assoc] at hwrote3
    rw [append_assoc]
    exact hwrote3
  · rw [hall, length_append, length_append, h3.flattenedSections, h2.flattenedSections,
      h1.flattenedSections]
    omega
  · have htake1 := h1.complete htruncate
    have htake2 := h2.complete htruncate
    have htake3 := h3.complete htruncate
    have hleftover1 : s1.sectionsLeft = s0.sectionsLeft - (us.filter kind1).length := by
      rw [h1.sectionsLeft, htake1, length_take]
      omega
    have hleftover2 : s2.sectionsLeft =
        s0.sectionsLeft - (us.filter kind1 ++ vs.filter kind2).length := by
      rw [h2.sectionsLeft, htake2, length_take, hleftover1, length_append]
      omega
    rw [hall, htake1, htake2, htake3, take_append, take_append, hleftover1, hleftover2]

namespace ErrlEntry

theorem Ok.setSctns {e : ErrlEntry} (h : e.Ok) (n : UInt8) : (e.setSctns n).Ok :=
  ⟨h.prvt, h.user, h.src, h.sections⟩

/-- The sections of an entry that a flatten writes. -/
def written (e : ErrlEntry) (groups : List (Bytes × List Bytes)) (size : Nat) : List ErrlUD :=
  fitting (size - e.fixedSize) MAX_UD_SECTIONS (flattenOrder e.sections groups)

/-- The log of an entry with these sections. -/
def logBytes (stack : Nat → UInt8) (e : ErrlEntry) (sections : List ErrlUD) : Bytes :=
  (e.setSctns (UInt8.ofNat (NON_UD_SECTION_CNT + sections.length))).fixedBytes stack ++
    sections.flatMap ErrlUD.bytes

/-- What a flatten leaves that did not return zero. -/
structure Outcome (stack : Nat → UInt8) (e : ErrlEntry) (m : Mem) (p size : Nat) (truncate : Bool)
    (groups : List (Bytes × List Bytes)) (r : Flattened) : Prop where
  merged : traceGroups (e.sections.filter ErrlUD.isTrace) = some groups
  size_eq : r.size = (e.logBytes stack (e.written groups size)).length
  size_le : r.size ≤ size
  holds : r.mem.Holds p (e.logBytes stack (e.written groups size))
  outside : Mem.SameOutside m r.mem p (max (72 + e.src.flatSize) r.size)
  cleared : 72 + e.src.flatSize ≤ size
  complete : truncate = false →
    e.written groups size = (flattenOrder e.sections groups).take MAX_UD_SECTIONS

theorem finish_spec (stack : Nat → UInt8) {e e' : ErrlEntry} (h : e.Ok) {m : Mem}
    {p size reach start : Nat} {sections : List ErrlUD} {s : Flat} {n : UInt8}
    (hwrote : Wrote m p size reach s.out
      ((e.setSctns n).fixedBytes stack ++ sections.flatMap ErrlUD.bytes))
    (hcount : s.flattenedSections = sections.length) (hprvt : e'.prvt = { e.prvt with sctns := n })
    (hn : sections.length = start → n = UInt8.ofNat (NON_UD_SECTION_CNT + start))
    (hpos : 0 < (finish e' s p size start).size) :
    s.ok = true ∧ (finish e' s p size start).size = (e.logBytes stack sections).length ∧
      (finish e' s p size start).size ≤ size ∧
      (finish e' s p size start).mem.Holds p (e.logBytes stack sections) ∧
      Mem.SameOutside m (finish e' s p size start).mem p
        (max reach (finish e' s p size start).size) := by
  unfold finish at hpos ⊢
  by_cases hok : s.ok = false
  · rw [if_pos hok] at hpos
    exact absurd hpos (Nat.lt_irrefl 0)
  rw [if_neg hok] at hpos ⊢
  rw [Bool.not_eq_false] at hok
  have hsize : ∀ o : Out, ∀ bs, Wrote m p size reach o bs → size - o.left = bs.length ∧
      size - o.left ≤ size := by
    intro o bs hw
    have hleft := hw.left
    omega
  by_cases hsame : s.flattenedSections = start
  · rw [if_neg (not_not_intro hsame)] at hpos ⊢
    have hsections : sections.length = start := by omega
    have hlog : (e.setSctns n).fixedBytes stack ++ sections.flatMap ErrlUD.bytes =
        e.logBytes stack sections := by
      rw [hn hsections, logBytes, hsections]
    rw [hlog] at hwrote
    have hlen := hsize _ _ hwrote
    refine ⟨hok, hlen.1, hlen.2, hwrote.holds, ?_⟩
    show Mem.SameOutside m s.out.mem p (max reach (size - s.out.left))
    rw [hlen.1]
    exact hwrote.outside
  · rw [if_pos hsame] at hpos ⊢
    dsimp only at hpos ⊢
    have hheader : (e'.setSctns (UInt8.ofNat (NON_UD_SECTION_CNT + s.flattenedSections))).prvt =
        (e.setSctns (UInt8.ofNat (NON_UD_SECTION_CNT + sections.length))).prvt := by
      rw [setSctns, setSctns, hprvt, hcount]
    rw [hheader] at hpos ⊢
    by_cases hzero : ((e.setSctns (UInt8.ofNat (NON_UD_SECTION_CNT + sections.length))).prvt.flatten
        s.out.mem p ErrlPrvt.flatSize).1 = 0
    · rw [if_pos hzero] at hpos
      exact absurd hpos (Nat.lt_irrefl 0)
    rw [if_neg hzero]
    have hwrites := ErrlPrvt.flatten_writes (h.setSctns _).prvt hzero
    rw [fixedBytes, append_assoc] at hwrote
    have hreplaced := hwrote.replace (b := (e.setSctns
      (UInt8.ofNat (NON_UD_SECTION_CNT + sections.length))).prvt.bytes)
      (by rw [ErrlPrvt.length_bytes, ErrlPrvt.length_bytes])
    have hlog : (e.setSctns (UInt8.ofNat (NON_UD_SECTION_CNT + sections.length))).prvt.bytes ++
        ((e.setSctns n).user.bytes ++ ((e.setSctns n).src.bytes stack ++
          ((e.setSctns n).extended.bytes ++ ((e.setSctns n).ed.iv ++ (e.setSctns n).mt.iv))) ++
            sections.flatMap ErrlUD.bytes) = e.logBytes stack sections := by
      rw [logBytes, fixedBytes, append_assoc]
      rfl
    rw [hlog] at hreplaced
    have hlen := hsize _ _ hreplaced
    rw [hwrites.eq]
    refine ⟨hok, hlen.1, hlen.2, hreplaced.holds, ?_⟩
    show Mem.SameOutside m (s.out.mem.write p _) p (max reach (size - s.out.left))
    have hleft : size - s.out.left = (e.logBytes stack sections).length := hlen.1
    rw [hleft]
    exact hreplaced.outside

theorem flatten_spec (stack : Nat → UInt8) {e : ErrlEntry} (h : e.Ok) {m : Mem} {p size : Nat}
    {truncate : Bool} {r : Flattened} (hr : e.flatten stack m p size truncate = some r)
    (hpos : 0 < r.size) : ∃ groups, Outcome stack e m p size truncate groups r := by
  unfold flatten at hr
  by_cases hsmall : size < e.flattenedSize ∧ truncate = false
  · rw [if_pos hsmall] at hr
    cases hr
    exact absurd hpos (Nat.lt_irrefl 0)
  rw [if_neg hsmall] at hr
  dsimp only at hr
  set n : UInt8 := if MAX_SECTIONS_ALLOWED < e.sections.length + NON_UD_SECTION_CNT then 0xFF
    else UInt8.ofNat (NON_UD_SECTION_CNT + e.sections.length) with hn
  set left : Nat := if MAX_SECTIONS_ALLOWED < e.sections.length + NON_UD_SECTION_CNT then
    MAX_SECTIONS_ALLOWED - NON_UD_SECTION_CNT else e.sections.length with hleft
  by_cases hfixed : ((e.setSctns n).flattenFixed stack ⟨m, p, size⟩).1 = false
  · rw [if_pos hfixed] at hr
    cases hr
    exact absurd hpos (Nat.lt_irrefl 0)
  rw [if_neg hfixed] at hr
  rw [Bool.not_eq_false] at hfixed
  obtain ⟨hwrote, hcleared, hentry⟩ := flattenFixed_spec stack (h.setSctns n) m p size hfixed
  rw [hentry] at hr
  generalize ((e.setSctns n).flattenFixed stack ⟨m, p, size⟩).2.2 = o at hr hwrote
  -- the three passes
  generalize hcallouts : flattenSections ErrlUD.isCallout truncate (e.setSctns n).sections
    ⟨o, left, 0, true⟩ = callouts at hr
  generalize hothers : flattenSections ErrlUD.isOther truncate callouts.1 callouts.2 = others at hr
  obtain ⟨merged, hmerged, hr⟩ := Option.map_eq_some_iff.mp hr
  generalize htraces : flattenSections ErrlUD.isTrace truncate merged others.2 = traces at hr
  have hcalloutsOther : callouts.1.filter ErrlUD.isOther = e.sections.filter ErrlUD.isOther := by
    rw [← hcallouts]
    exact filter_flattenSections ErrlUD.isOther_sized (fun _ => ErrlUD.isOther_of_isCallout) _ _ _
  have hothersTrace : others.1.filter ErrlUD.isTrace = e.sections.filter ErrlUD.isTrace := by
    rw [← hothers, filter_flattenSections ErrlUD.isTrace_sized
      (fun _ => ErrlUD.isTrace_of_isOther), ← hcallouts]
    exact filter_flattenSections ErrlUD.isTrace_sized (fun _ => ErrlUD.isTrace_of_isCallout) _ _ _
  obtain ⟨groups, hgroups, -, hmergedTrace⟩ := filter_removeDuplicateTraces hmerged
  rw [hothersTrace] at hgroups
  subst hr
  -- no pass has failed
  have hok3 : traces.2.ok = true := by
    by_contra hnot
    rw [Bool.not_eq_true] at hnot
    unfold finish at hpos
    rw [if_pos hnot] at hpos
    exact absurd hpos (Nat.lt_irrefl 0)
  have hok2 : others.2.ok = true := by
    by_contra hnot
    rw [Bool.not_eq_true] at hnot
    rw [flattenSections_of_not_ok _ _ _ hnot] at htraces
    rw [← htraces, hnot] at hok3
    exact absurd hok3 (by decide)
  have hok1 : callouts.2.ok = true := by
    by_contra hnot
    rw [Bool.not_eq_true] at hnot
    rw [flattenSections_of_not_ok _ _ _ hnot] at hothers
    rw [← hothers, hnot] at hok2
    exact absurd hok2 (by decide)
  have hpassed1 := flattenSections_passed (s := ⟨o, left, 0, true⟩) hwrote
    (hcallouts ▸ hok1 : (flattenSections ErrlUD.isCallout truncate (e.setSctns n).sections
      ⟨o, left, 0, true⟩).2.ok = true)
  rw [hcallouts] at hpassed1
  have hpassed2 := flattenSections_passed hpassed1.wrote
    (hothers ▸ hok2 : (flattenSections ErrlUD.isOther truncate callouts.1 callouts.2).2.ok = true)
  rw [hothers] at hpassed2
  have hpassed3 := flattenSections_passed hpassed2.wrote
    (htraces ▸ hok3 : (flattenSections ErrlUD.isTrace truncate merged others.2).2.ok = true)
  rw [htraces] at hpassed3
  obtain ⟨hwritten, hcount, hcomplete⟩ := passes hwrote hpassed1 hpassed2 hpassed3
  have horder : (e.setSctns n).sections.filter ErrlUD.isCallout ++
      callouts.1.filter ErrlUD.isOther ++ merged.filter ErrlUD.isTrace =
        flattenOrder e.sections groups := by
    rw [hcalloutsOther, hmergedTrace]
    rfl
  -- the count that the entry starts with does not stop the passes before the limit does
  have hlength : (flattenOrder e.sections groups).length ≤ e.sections.length := by
    have hkinds := length_kinds e.sections
    have hgroupsLength := length_traceGroups hgroups
    rw [flattenOrder, length_append, length_append, length_map]
    omega
  have hlimit : left = MAX_UD_SECTIONS ∨ (left = e.sections.length ∧ left ≤ MAX_UD_SECTIONS) := by
    rw [hleft]
    by_cases hover : MAX_SECTIONS_ALLOWED < e.sections.length + NON_UD_SECTION_CNT
    · rw [if_pos hover]
      exact .inl rfl
    · rw [if_neg hover]
      refine .inr ⟨rfl, ?_⟩
      rw [MAX_UD_SECTIONS]
      omega
  have hspace : o.left = size - e.fixedSize := by
    have hout := hwrote.left
    rw [length_fixedBytes stack (h.setSctns n)] at hout
    show o.left = size - (e.setSctns n).fixedSize
    omega
  have hfitting : fitting o.left left (flattenOrder e.sections groups) =
      e.written groups size := by
    rw [written, hspace]
    rcases hlimit with heq | ⟨heq, hle⟩
    · rw [heq]
    · exact fitting_count (by omega) (by omega)
  dsimp only at hwritten hcount hcomplete
  rw [horder, hfitting] at hwritten hcount hcomplete
  rw [Nat.zero_add] at hcount
  have hnumber : (e.written groups size).length = e.sections.length →
      n = UInt8.ofNat (NON_UD_SECTION_CNT + e.sections.length) := by
    intro hall
    have hle := length_fitting_le (size - e.fixedSize) MAX_UD_SECTIONS
      (flattenOrder e.sections groups)
    rw [← written, hall, MAX_UD_SECTIONS] at hle
    rw [hn, if_neg (by rw [MAX_SECTIONS_ALLOWED, NON_UD_SECTION_CNT] at *; omega)]
  obtain ⟨-, hsize, hsizeLe, hholds, houtside⟩ :=
    finish_spec stack h hwritten hcount rfl hnumber hpos
  refine ⟨groups, hgroups, hsize, hsizeLe, hholds, houtside, hcleared, fun htruncate => ?_⟩
  rw [hcomplete htruncate]
  rcases hlimit with heq | ⟨heq, hle⟩
  · rw [heq]
  · rw [take_of_length_le (by omega), take_of_length_le (by omega)]

end ErrlEntry

/-! ## What is read -/

namespace ErrlEntry

theorem unflattenSections_flatMap {us : List ErrlUD}
    (h : ∀ u ∈ us, u.header.sid = ERRL_SID_USER_DEFINED ∧ u.flatSize < 65536) {len consumed : Nat}
    (hlen : consumed + sizes us ≤ len) (rest : Bytes) :
    unflattenSections len us.length (us.flatMap ErrlUD.bytes ++ rest) consumed =
      some (0, us.map ErrlUD.padded) := by
  induction us generalizing consumed with
  | nil => rfl
  | cons u us ih =>
    obtain ⟨hsid, hfits⟩ := h u mem_cons_self
    have hpos := u.flatSize_pos
    have hle := u.le_flatSize
    rw [sizes_cons] at hlen
    have hslen : u.sized.header.slen.toNat = u.flatSize := by
      show (UInt16.ofNat u.flatSize).toNat = _
      rw [UInt16.toNat_ofNat']
      exact Nat.mod_eq_of_lt hfits
    have hbytes : (u :: us).flatMap ErrlUD.bytes ++ rest =
        u.bytes ++ (us.flatMap ErrlUD.bytes ++ rest) := by
      rw [flatMap_cons, append_assoc]
    have hid : ∃ behind, Reader.u16 (u.bytes ++ (us.flatMap ErrlUD.bytes ++ rest)) =
        some (u.sized.header.sid, behind) := by
      rw [ErrlUD.bytes, ErrlSctnHdr.bytes, append_assoc, append_assoc]
      exact ⟨_, Reads.u16 _ _⟩
    obtain ⟨behind, hid⟩ := hid
    have hread : ErrlSctnHdr.read (u.bytes ++ (us.flatMap ErrlUD.bytes ++ rest)) =
        some (u.sized.header, u.data ++ u.pad ++ (us.flatMap ErrlUD.bytes ++ rest)) := by
      rw [ErrlUD.bytes, append_assoc]
      exact u.sized.header.reads _
    have hdrop : (u.bytes ++ (us.flatMap ErrlUD.bytes ++ rest)).drop u.flatSize =
        us.flatMap ErrlUD.bytes ++ rest := drop_left' u.length_bytes
    have hdata : ((u.bytes ++ (us.flatMap ErrlUD.bytes ++ rest)).drop ErrlSctnHdr.flatSize).take
        (u.flatSize - ErrlSctnHdr.flatSize) = u.data ++ u.pad := by
      have hlength : (u.data ++ u.pad).length = u.flatSize - ErrlSctnHdr.flatSize := by
        have hwhole := u.length_bytes
        rw [ErrlUD.bytes, length_append, ErrlSctnHdr.length_bytes] at hwhole
        rw [ErrlSctnHdr.flatSize]
        omega
      have hheader : (u.bytes ++ (us.flatMap ErrlUD.bytes ++ rest)).drop ErrlSctnHdr.flatSize =
          u.data ++ u.pad ++ (us.flatMap ErrlUD.bytes ++ rest) := by
        rw [ErrlUD.bytes, append_assoc]
        exact drop_left' u.sized.header.length_bytes
      rw [hheader]
      exact take_left' hlength
    have hin : ¬ (u.flatSize < ErrlSctnHdr.flatSize ∨
        (u.bytes ++ (us.flatMap ErrlUD.bytes ++ rest)).length < u.flatSize) := by
      rw [length_append, ErrlUD.length_bytes]
      omega
    have hsid' : ¬ u.sized.header.sid ≠ ERRL_SID_USER_DEFINED := not_not_intro hsid
    rw [length_cons, unflattenSections, if_pos (by omega), hbytes, hid]
    simp only [Option.bind_eq_bind, Option.bind_some]
    rw [if_neg hsid', hread, Option.bind_some]
    simp only []
    rw [hslen, if_neg hin, hdrop, hdata,
      ih (fun v hv => h v (mem_cons_of_mem u hv)) (by omega)]
    rfl

/-- What an entry that a log was read into has in common with the entry that was
flattened, when `sections` were written. -/
structure ReadBack (e : ErrlEntry) (sections : List ErrlUD) (e' : ErrlEntry) : Prop where
  prvt : e'.prvt = (e.setSctns (UInt8.ofNat (NON_UD_SECTION_CNT + sections.length))).prvt.recoded
  sctns : e'.prvt.sctns.toNat = NON_UD_SECTION_CNT + sections.length
  user : e'.user = e.user
  src : e.src.Returns e'.src
  extended : e'.extended.bytes = e.extended.bytes
  ed : e'.ed = e.ed
  mt : e'.mt = e.mt
  sections : e'.sections = sections.map ErrlUD.padded

theorem unflatten_spec (stack : Nat → UInt8) {e e0 : ErrlEntry} (h : e.Ok) (hfresh : e0.Fresh)
    {sections : List ErrlUD} (hcount : sections.length ≤ MAX_UD_SECTIONS)
    (hsections : ∀ u ∈ sections, u.header.sid = ERRL_SID_USER_DEFINED ∧ u.flatSize < 65536)
    {len : Nat} (hlen : (e.logBytes stack sections).length ≤ len) (rest : Bytes) :
    ∃ e', e0.unflatten (e.logBytes stack sections ++ rest) len = some (0, e') ∧
      e.ReadBack sections e' := by
  set n := UInt8.ofNat (NON_UD_SECTION_CNT + sections.length) with hn
  have hsctns : n.toNat = NON_UD_SECTION_CNT + sections.length := by
    rw [MAX_UD_SECTIONS, MAX_SECTIONS_ALLOWED, NON_UD_SECTION_CNT] at hcount
    rw [hn, UInt8.toNat_ofNat', NON_UD_SECTION_CNT]
    omega
  have hlength : (e.logBytes stack sections).length = e.fixedSize + sizes sections := by
    rw [logBytes, length_append, length_fixedBytes stack (h.setSctns _),
      length_flatMap_udBytes]
    rfl
  rw [hlength] at hlen
  rw [logBytes, fixedBytes]
  simp only [append_assoc]
  have hud' := unflattenSections_flatMap hsections hlen rest
  generalize sections.flatMap ErrlUD.bytes ++ rest = ud at hud' ⊢
  set mtRest := e.mt.iv ++ ud with hmtRest
  set edRest := e.ed.iv ++ mtRest with hedRest
  set ehRest := e.extended.bytes ++ edRest with hehRest
  set psRest := e.src.bytes stack ++ ehRest with hpsRest
  set uhRest := e.user.bytes ++ psRest with huhRest
  obtain ⟨src, hsrc, hreturns⟩ :=
    ErrlSrc.unflatten_bytes stack h.src hfresh.coVec hfresh.deconfig hfresh.gard ehRest
  obtain ⟨extended, hextended, hbytes⟩ := ErrlEH.unflatten_bytes e.extended e0.extended edRest
  have hprvt : ErrlPrvt.unflatten ((e.setSctns n).prvt.bytes ++ uhRest) =
      some ((e.setSctns n).prvt.recoded, ErrlPrvt.flatSize) := ErrlPrvt.unflatten_bytes _ _
  have huser : ErrlUH.unflatten uhRest = some (e.user, ErrlUH.flatSize) :=
    ErrlUH.unflatten_bytes _ _
  have hed : Raw.unflatten 0xD4 edRest = some (e.ed, 0xD4) := Raw.unflatten_append _ _
  have hmt : Raw.unflatten 0x1C mtRest = some (e.mt, 0x1C) := Raw.unflatten_append _ _
  -- what stands behind each section
  have hprvtDrop : ((e.setSctns n).prvt.bytes ++ uhRest).drop ErrlPrvt.flatSize = uhRest :=
    drop_left' (ErrlPrvt.length_bytes _)
  have huserDrop : uhRest.drop ErrlUH.flatSize = psRest := drop_left' (ErrlUH.length_bytes _)
  have hsrcDrop : psRest.drop (e.src.bytes stack).length = ehRest := drop_left' rfl
  have hextendedDrop : ehRest.drop e.extended.flatSize = edRest :=
    drop_left' (ErrlEH.length_bytes _)
  have hedDrop : edRest.drop 0xD4 = mtRest := drop_left' e.ed.size
  have hmtDrop : mtRest.drop 0x1C = ud := drop_left' e.mt.size
  have hconsumed : ErrlPrvt.flatSize + ErrlUH.flatSize + (e.src.bytes stack).length +
      e.extended.flatSize + 0xD4 + 0x1C = e.fixedSize := by
    rw [ErrlSrc.length_bytes stack h.src.built, fixedSize]
    omega
  have hleft : (e.setSctns n).prvt.recoded.sctns.toNat - NON_UD_SECTION_CNT = sections.length := by
    show n.toNat - _ = _
    omega
  have hrc : ¬ (sections.map ErrlUD.padded).length + NON_UD_SECTION_CNT ≠
      (e.setSctns n).prvt.recoded.sctns.toNat := by
    show ¬ _ ≠ n.toNat
    rw [length_map]
    omega
  have hnone : ¬ e0.aggregated = true := by
    rw [hfresh.aggregated]
    decide
  refine ⟨⟨(e.setSctns n).prvt.recoded, e.user, src, extended, e.ed, e.mt,
    sections.map ErrlUD.padded, e0.aggregated⟩, ?_,
    rfl, hsctns, rfl, hreturns, hbytes, rfl, rfl, rfl⟩
  show ErrlEntry.unflatten e0 ((e.setSctns n).prvt.bytes ++ uhRest) _ = _
  rw [unflatten, if_neg hnone, hprvt]
  simp only [Option.bind_eq_bind, Option.bind_some]
  rw [hprvtDrop, huser]
  simp only [Option.bind_some]
  rw [huserDrop, hsrc]
  simp only [Option.bind_some]
  rw [hsrcDrop, hextended]
  simp only [Option.bind_some]
  rw [hextendedDrop, hed]
  simp only [Option.bind_some]
  rw [hedDrop, hmt]
  simp only [Option.bind_some]
  rw [hmtDrop, hconsumed, hleft, hud']
  simp only [Option.bind_some]
  rw [if_neg hrc]

/-! ## The round trip -/

/-- The lengths of the sections, once the traces are merged, fit into their
headers; a section that does not fit into the buffer does not matter. -/
def LengthsFit (e : ErrlEntry) (size : Nat) : Prop :=
  ∀ merged, removeDuplicateTraces e.sections = some merged →
    ∀ u ∈ merged, u.flatSize ≤ size → u.flatSize < 65536

theorem sid_traceSection (comp : Bytes) (es : List Bytes) :
    (traceSection comp es).header.sid = ERRL_SID_USER_DEFINED := rfl

/-- The sections that are written are among the merged ones, and fit into the
buffer. -/
theorem written_ok {e : ErrlEntry} (h : e.Ok) {size : Nat} (hfit : e.LengthsFit size)
    {groups : List (Bytes × List Bytes)}
    (hgroups : traceGroups (e.sections.filter ErrlUD.isTrace) = some groups) :
    ∀ u ∈ e.written groups size, u.header.sid = ERRL_SID_USER_DEFINED ∧ u.flatSize < 65536 := by
  intro u hu
  have hmerged : removeDuplicateTraces e.sections =
      some (e.sections.filter (fun u => !u.isTrace) ++
        groups.map fun g => traceSection g.1 g.2) := by
    rw [removeDuplicateTraces, hgroups]
    rfl
  have hsize : u.flatSize ≤ size := by
    have hle := sizes_fitting_le (size - e.fixedSize) MAX_UD_SECTIONS
      (flattenOrder e.sections groups)
    have hone : u.flatSize ≤ sizes (e.written groups size) := flatSize_le_sizes hu
    rw [written] at hone
    omega
  have hmem := (fitting_sublist _ _ _).subset hu
  rw [flattenOrder, mem_append, mem_append, mem_filter, mem_filter] at hmem
  rcases hmem with (⟨hu, hkind⟩ | ⟨hu, hkind⟩) | hu
  · refine ⟨h.sections u hu, hfit _ hmerged u (mem_append_left _ ?_) hsize⟩
    rw [mem_filter, ErrlUD.isTrace_of_isCallout hkind]
    exact ⟨hu, rfl⟩
  · refine ⟨h.sections u hu, hfit _ hmerged u (mem_append_left _ ?_) hsize⟩
    rw [mem_filter, ErrlUD.isTrace_of_isOther hkind]
    exact ⟨hu, rfl⟩
  · refine ⟨?_, hfit _ hmerged u (mem_append_right _ hu) hsize⟩
    obtain ⟨g, _, rfl⟩ := mem_map.mp hu
    exact sid_traceSection g.1 g.2

end ErrlEntry

end Hostboot.Errl.Pel
