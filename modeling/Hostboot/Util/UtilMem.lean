import Mathlib
import Hostboot.Lib.Bytes

/-!
# The memory stream

`UtilMem` is a stream over a block of memory: a position, a size, an end-of-file
flag, and an error that stays until it is fetched and suspends the stream until
then.  All its arithmetic is on unsigned words of 32 bits.

The bytes of the block are counted from its start.  What a `realloc` leaves in
bytes that are new is a parameter of the calls that make one.  A call returns
its new state, its return value and the range that it copied.

* The calls keep to the stream (`Call.Disciplined`) when they stay inside the
  block, the position stays at most the size, and a seek goes where it was asked
  to go, or to the nearest end.
* `Call.Good` says when they do.  A sum of the position and a length may wrap,
  and then the copy leaves the block.  The target of a seek is an unsigned sum,
  so a negative target counts as one past the end, and past the end a seek goes
  to the last byte, or wraps when there is none.
* `disciplined_run_iff` is the statement over runs, and `Remembers` the invariant that says
  which bytes of the block were written.
-/

namespace Hostboot.Util.MemStream

open Lib

/-! ## The functions of the source -/

/-- The reason codes of the stream. -/
inductive UtilErc
  | UTIL_ERC_BAD_PTR | UTIL_ERC_EOF

/-- `UtilStream::whence`. -/
inductive Whence
  | CURRENT | START | END

/-- `UtilMem`.  `memStart` says that the pointer is not null, and `mem` are the
bytes behind it. -/
structure UtilMem where
  memStart : Bool
  mem : Mem
  offset : UInt32
  size : UInt32
  autoGrow : Bool
  autoCleanup : Bool
  eof : Bool
  lastError : Option UtilErc

/-- What a call leaves: the stream, the return value, and the start and the
length of a copy. -/
structure UtilMem.Result where
  stream : UtilMem
  rc : UInt32
  copied : Option (Nat × Nat)

namespace UtilMem

/-- The constructor without a size. -/
def empty (mem : Mem) : UtilMem := ⟨false, mem, 0, 0, true, true, false, none⟩

/-- The constructor with a size: the block is cleared. -/
def allocated (size : UInt32) (mem : Mem) : UtilMem :=
  ⟨true, fun x => if x < size.toNat then 0 else mem x, 0, size, false, true, false, none⟩

/-- The constructor over a buffer of the caller. -/
def foreign (buffer : Bool) (size : UInt32) (mem : Mem) : UtilMem :=
  ⟨buffer, mem, 0, size, false, false, false, none⟩

/-- `autoGrow`. -/
def setAutoGrow (s : UtilMem) (flag : Bool) : UtilMem :=
  if s.autoCleanup then { s with autoGrow := flag } else s

def getLastError (s : UtilMem) : UtilMem := { s with lastError := none, eof := false }

/-- The error of a call is kept if there is none yet. -/
def keepError (s : UtilMem) (erc : Option UtilErc) : UtilMem :=
  match s.lastError with
  | none => { s with lastError := erc }
  | some _ => s

/-- `realloc` of the block. -/
def realloc (s : UtilMem) (size : UInt32) (fresh : Mem) : UtilMem :=
  { s with
    memStart := true
    mem := fun x => if x < min s.size.toNat size.toNat then s.mem x else fresh x
    size := size }

/-- The bytes that a `read` copies to the buffer of the caller. -/
def received (s : UtilMem) (i : Nat) : UInt8 := s.mem (s.offset.toNat + i)

def read (s : UtilMem) (size : UInt32) : Result :=
  if ¬ s.memStart then ⟨s.keepError (some .UTIL_ERC_BAD_PTR), 0, none⟩
  else if s.eof then ⟨s.keepError (some .UTIL_ERC_EOF), 0, none⟩
  else if size ≠ 0 ∧ s.lastError.isNone then
    if s.offset + size > s.size then
      let rc := s.size - s.offset
      ⟨keepError { s with eof := true, offset := s.offset + rc } (some .UTIL_ERC_EOF), rc,
        some (s.offset.toNat, rc.toNat)⟩
    else
      ⟨{ s with offset := s.offset + size }, size, some (s.offset.toNat, size.toNat)⟩
  else ⟨s, 0, none⟩

/-- `memcpy` of `rc` bytes of a buffer to the position, which moves behind them. -/
def put (s : UtilMem) (buffer : Mem) (rc : UInt32) : UtilMem :=
  { s with
    mem := fun x =>
      if s.offset.toNat ≤ x ∧ x < s.offset.toNat + rc.toNat then buffer (x - s.offset.toNat)
      else s.mem x
    offset := s.offset + rc }

def write (s : UtilMem) (buffer : Mem) (size : UInt32) (fresh : Mem) : Result :=
  if ¬ s.memStart ∧ ¬ s.autoGrow then ⟨s.keepError (some .UTIL_ERC_BAD_PTR), 0, none⟩
  else if s.eof ∧ ¬ s.autoGrow then ⟨s.keepError (some .UTIL_ERC_EOF), 0, none⟩
  else if size ≠ 0 ∧ s.lastError.isNone then
    if s.offset + size > s.size then
      if s.autoGrow then
        ⟨(s.realloc (s.offset + size) fresh).put buffer size, size,
          some (s.offset.toNat, size.toNat)⟩
      else
        let rc := s.size - s.offset
        ⟨keepError { s.put buffer rc with eof := true } (some .UTIL_ERC_EOF), rc,
          some (s.offset.toNat, rc.toNat)⟩
    else ⟨s.put buffer size, size, some (s.offset.toNat, size.toNat)⟩
  else ⟨s, 0, none⟩

/-- Where a seek starts from. -/
def origin (s : UtilMem) : Whence → UInt32
  | .START => 0
  | .CURRENT => s.offset
  | .END => s.size

def seek (s : UtilMem) (pos : Int32) (whence : Whence) : Result :=
  if s.lastError.isNone then
    -- the sum of an unsigned and a signed word is unsigned
    let offset : Int := ((s.origin whence + pos.toUInt32).toNat : Int)
    let iv_offset : UInt32 :=
      if offset < 0 then 0
      else if offset > s.size.toNat then s.size - 1
      else UInt32.ofNat offset.toNat
    ⟨{ s with offset := iv_offset, eof := false }, iv_offset, none⟩
  else ⟨s, s.offset, none⟩

def changeSize (s : UtilMem) (size : UInt32) (fresh : Mem) : Result :=
  if s.autoCleanup then ⟨{ s.realloc size fresh with offset := 0 }, 0, none⟩ else ⟨s, 0, none⟩

end UtilMem

/-- A call on a stream. -/
inductive Call
  | read (size : UInt32)
  | write (buffer : Mem) (size : UInt32) (fresh : Mem)
  | seek (pos : Int32) (whence : Whence)
  | changeSize (size : UInt32) (fresh : Mem)
  | autoGrow (flag : Bool)
  | getLastError

/-- What a call does. -/
def Call.run (s : UtilMem) : Call → UtilMem.Result
  | read size => s.read size
  | write buffer size fresh => s.write buffer size fresh
  | seek pos whence => s.seek pos whence
  | changeSize size fresh => s.changeSize size fresh
  | autoGrow flag => ⟨s.setAutoGrow flag, 0, none⟩
  | getLastError => ⟨s.getLastError, 0, none⟩

/-- The constructors.  The memory is what the block holds before. -/
inductive Constructor
  | empty (mem : Mem)
  | allocated (size : UInt32) (mem : Mem)
  | foreign (buffer : Bool) (size : UInt32) (mem : Mem)

/-- The stream that a constructor makes. -/
def Constructor.stream : Constructor → UtilMem
  | empty mem => .empty mem
  | allocated size mem => .allocated size mem
  | foreign buffer size mem => .foreign buffer size mem

/-! ## The discipline of the stream -/

namespace UtilMem

/-- The position that a seek asks for. -/
def target (s : UtilMem) (pos : Int32) (whence : Whence) : Int :=
  ((s.origin whence).toNat : Int) + pos.toInt

/-- The nearest position of the stream. -/
def clamp (s : UtilMem) (target : Int) : Int := max 0 (min target s.size.toNat)

/-- The bytes of the block as they were written: those of a `write` where it
copied, and none behind the end that `changeSize` sets. -/
def remember (s : UtilMem) (written : Nat → Option UInt8) : Call → Nat → Option UInt8
  | .write buffer size fresh, x =>
    if s.offset.toNat ≤ x ∧ x < s.offset.toNat + (s.write buffer size fresh).rc.toNat then
      some (buffer (x - s.offset.toNat))
    else written x
  | .changeSize size _, x =>
    if s.autoCleanup = true ∧ ¬ x < size.toNat then none else written x
  | _, x => written x

end UtilMem

namespace Call

/-- The call stays inside the block, leaves the position in the stream, and goes
where it was asked to go. -/
structure Disciplined (s : UtilMem) (c : Call) : Prop where
  inside : ∀ p n, (c.run s).copied = some (p, n) → p + n ≤ (c.run s).stream.size.toNat
  offset_le : (c.run s).stream.offset.toNat ≤ (c.run s).stream.size.toNat
  sought : ∀ pos whence, c = .seek pos whence →
    ((c.run s).stream.offset.toNat : Int) = s.clamp (s.target pos whence)

/-- No sum wraps where bytes are copied.  A seek stays inside the stream, or goes
in front of a stream of one byte, or is suspended where it should go. -/
def Good (s : UtilMem) : Call → Prop
  | read size =>
    s.memStart = true → s.eof = false → s.lastError = none →
      s.offset.toNat + size.toNat < 2 ^ 32
  | write _ size _ =>
    s.memStart = true ∨ s.autoGrow = true → s.eof = false ∨ s.autoGrow = true →
      s.lastError = none → s.offset.toNat + size.toNat < 2 ^ 32
  | seek pos whence =>
    if s.lastError.isNone then
      0 ≤ s.target pos whence ∧ s.target pos whence ≤ s.size.toNat ∨
        s.target pos whence < 0 ∧ s.size = 1
    else s.clamp (s.target pos whence) = s.offset.toNat
  | _ => True

/-- A `read` delivers the bytes that were written. -/
def Faithful (s : UtilMem) (written : Nat → Option UInt8) (c : Call) : Prop :=
  ∀ size, c = .read size → ∀ i < (s.read size).rc.toNat, ∀ b,
    written (s.offset.toNat + i) = some b → s.received i = b

end Call

/-- Every call of a run is disciplined. -/
def Disciplined : UtilMem → List Call → Prop
  | _, [] => True
  | s, c :: cs => c.Disciplined s ∧ Disciplined (c.run s).stream cs

/-- Every call of a run is good. -/
def Good : UtilMem → List Call → Prop
  | _, [] => True
  | s, c :: cs => c.Good s ∧ Good (c.run s).stream cs

/-- Every `read` of a run delivers the bytes that were written. -/
def Faithful : UtilMem → (Nat → Option UInt8) → List Call → Prop
  | _, _, [] => True
  | s, written, c :: cs =>
    c.Faithful s written ∧ Faithful (c.run s).stream (s.remember written c) cs

/-! ## Transfers -/

namespace UtilMem

variable {s : UtilMem}

theorem toNat_add_of_lt {a b : UInt32} (h : a.toNat + b.toNat < 2 ^ 32) :
    (a + b).toNat = a.toNat + b.toNat := by
  rw [UInt32.toNat_add, Nat.mod_eq_of_lt h]

theorem toNat_add_of_ge {a b : UInt32} (h : 2 ^ 32 ≤ a.toNat + b.toNat) :
    (a + b).toNat + 2 ^ 32 = a.toNat + b.toNat := by
  have ha := a.toNat_lt
  have hb := b.toNat_lt
  rw [UInt32.toNat_add]
  omega

/-- The number of bytes that a call copies if the block does not grow. -/
def transfer (s : UtilMem) (size : UInt32) : UInt32 :=
  if s.offset + size > s.size then s.size - s.offset else size

theorem transfer_le (hle : s.offset.toNat ≤ s.size.toNat) {size : UInt32}
    (hsum : s.offset.toNat + size.toNat < 2 ^ 32) :
    s.offset.toNat + (s.transfer size).toNat ≤ s.size.toNat := by
  unfold transfer
  split
  · rw [UInt32.toNat_sub_of_le _ _ hle]
    omega
  · rename_i hfits
    have hfits' : (s.offset + size).toNat ≤ s.size.toNat := Nat.not_lt.mp hfits
    rw [toNat_add_of_lt hsum] at hfits'
    exact hfits'

theorem transfer_wraps (hle : s.offset.toNat ≤ s.size.toNat) {size : UInt32}
    (hsum : 2 ^ 32 ≤ s.offset.toNat + size.toNat) :
    ¬ s.offset + size > s.size ∧ s.size.toNat < s.offset.toNat + size.toNat := by
  have hwrap := toNat_add_of_ge hsum
  have hsize := size.toNat_lt
  have hstream := s.size.toNat_lt
  constructor
  · intro hgt
    have hgt' : s.size.toNat < (s.offset + size).toNat := hgt
    omega
  · omega

/-- A `read` that copies. -/
def Reads (s : UtilMem) (size : UInt32) : Prop :=
  s.memStart = true ∧ s.eof = false ∧ size ≠ 0 ∧ s.lastError = none

/-- A `write` that copies. -/
def Writes (s : UtilMem) (size : UInt32) : Prop :=
  (s.memStart = true ∨ s.autoGrow = true) ∧ (s.eof = false ∨ s.autoGrow = true) ∧ size ≠ 0 ∧
    s.lastError = none

@[simp] theorem keepError_mem (s : UtilMem) (erc : Option UtilErc) :
    (s.keepError erc).mem = s.mem := by
  unfold keepError
  split <;> rfl

@[simp] theorem keepError_offset (s : UtilMem) (erc : Option UtilErc) :
    (s.keepError erc).offset = s.offset := by
  unfold keepError
  split <;> rfl

@[simp] theorem keepError_size (s : UtilMem) (erc : Option UtilErc) :
    (s.keepError erc).size = s.size := by
  unfold keepError
  split <;> rfl

theorem read_of_reads {size : UInt32} (h : s.Reads size) :
    (s.read size).rc = s.transfer size ∧
      (s.read size).copied = some (s.offset.toNat, (s.transfer size).toNat) ∧
      (s.read size).stream.mem = s.mem ∧ (s.read size).stream.size = s.size ∧
      (s.read size).stream.offset = s.offset + s.transfer size := by
  obtain ⟨hmem, heof, hsize, hnone⟩ := h
  unfold read transfer
  rw [if_neg (by simp [hmem]), if_neg (by simp [heof]), if_pos ⟨hsize, by simp [hnone]⟩]
  split
  · exact ⟨rfl, rfl, keepError_mem _ _, keepError_size _ _, keepError_offset _ _⟩
  · exact ⟨rfl, rfl, rfl, rfl, rfl⟩

theorem read_of_not_reads {size : UInt32} (h : ¬ s.Reads size) :
    (s.read size).rc = 0 ∧ (s.read size).copied = none ∧ (s.read size).stream.mem = s.mem ∧
      (s.read size).stream.size = s.size ∧ (s.read size).stream.offset = s.offset := by
  unfold read
  split
  · exact ⟨rfl, rfl, keepError_mem _ _, keepError_size _ _, keepError_offset _ _⟩
  split
  · exact ⟨rfl, rfl, keepError_mem _ _, keepError_size _ _, keepError_offset _ _⟩
  rename_i hmem heof
  split
  · rename_i hactive
    simp only [Bool.not_eq_true, Bool.not_eq_false] at hmem heof
    exact absurd ⟨hmem, heof, hactive.1, Option.isNone_iff_eq_none.mp hactive.2⟩ h
  · exact ⟨rfl, rfl, rfl, rfl, rfl⟩

theorem write_of_writes {size : UInt32} (h : s.Writes size)
    (hfits : ¬ (s.offset + size > s.size ∧ s.autoGrow = true)) (buffer fresh : Mem) :
    (s.write buffer size fresh).rc = s.transfer size ∧
      (s.write buffer size fresh).copied = some (s.offset.toNat, (s.transfer size).toNat) ∧
      (s.write buffer size fresh).stream.mem = (s.put buffer (s.transfer size)).mem ∧
      (s.write buffer size fresh).stream.size = s.size ∧
      (s.write buffer size fresh).stream.offset = s.offset + s.transfer size := by
  obtain ⟨hmem, heof, hsize, hnone⟩ := h
  unfold write transfer
  rw [if_neg (by rintro ⟨h1, h2⟩; exact hmem.elim h1 h2),
    if_neg (by rintro ⟨h1, h2⟩; exact heof.elim (by simp [h1]) h2),
    if_pos ⟨hsize, by simp [hnone]⟩]
  by_cases hgt : s.offset + size > s.size
  · rw [if_pos hgt, if_pos hgt, if_neg fun hgrow => hfits ⟨hgt, hgrow⟩]
    exact ⟨rfl, rfl, keepError_mem _ _, keepError_size _ _, keepError_offset _ _⟩
  · rw [if_neg hgt, if_neg hgt]
    exact ⟨rfl, rfl, rfl, rfl, rfl⟩

theorem write_of_grows {size : UInt32} (h : s.Writes size) (hgt : s.offset + size > s.size)
    (hgrow : s.autoGrow = true) (buffer fresh : Mem) :
    s.write buffer size fresh = ⟨(s.realloc (s.offset + size) fresh).put buffer size, size,
      some (s.offset.toNat, size.toNat)⟩ := by
  obtain ⟨hmem, heof, hsize, hnone⟩ := h
  unfold write
  rw [if_neg (by rintro ⟨_, h2⟩; exact h2 hgrow), if_neg (by rintro ⟨_, h2⟩; exact h2 hgrow),
    if_pos ⟨hsize, by simp [hnone]⟩, if_pos hgt, if_pos hgrow]

theorem write_of_not_writes {size : UInt32} (h : ¬ s.Writes size) (buffer fresh : Mem) :
    (s.write buffer size fresh).rc = 0 ∧ (s.write buffer size fresh).copied = none ∧
      (s.write buffer size fresh).stream.mem = s.mem ∧
      (s.write buffer size fresh).stream.size = s.size ∧
      (s.write buffer size fresh).stream.offset = s.offset := by
  unfold write
  split
  · exact ⟨rfl, rfl, keepError_mem _ _, keepError_size _ _, keepError_offset _ _⟩
  split
  · exact ⟨rfl, rfl, keepError_mem _ _, keepError_size _ _, keepError_offset _ _⟩
  rename_i hmem heof
  split
  · rename_i hactive
    rw [not_and_or, not_not, not_not] at hmem
    rw [not_and_or, not_not, Bool.not_eq_true] at heof
    exact absurd ⟨hmem, heof, hactive.1, Option.isNone_iff_eq_none.mp hactive.2⟩ h
  · exact ⟨rfl, rfl, rfl, rfl, rfl⟩

/-! ## Seeks -/

theorem toNat_origin_add (s : UtilMem) (pos : Int32) (whence : Whence) :
    ((s.origin whence + pos.toUInt32).toNat : Int) = s.target pos whence % 2 ^ 32 := by
  have hpos : pos.toInt = if 2 * pos.toUInt32.toNat < 2 ^ 32 then (pos.toUInt32.toNat : Int)
      else (pos.toUInt32.toNat : Int) - 2 ^ 32 := pos.toBitVec.toInt_eq_toNat_cond
  rw [UInt32.toNat_add, target, hpos]
  split <;> omega

theorem target_bounds (s : UtilMem) (pos : Int32) (whence : Whence) :
    -2 ^ 31 ≤ s.target pos whence ∧ s.target pos whence < (s.origin whence).toNat + 2 ^ 31 := by
  have hlow := pos.le_toInt
  have hhigh := pos.toInt_lt
  unfold target
  omega

/-- A seek goes to its unsigned sum, and past the end to the last byte. -/
theorem seek_of_isNone (h : s.lastError = none) (pos : Int32) (whence : Whence) :
    (s.seek pos whence).copied = none ∧ (s.seek pos whence).stream.size = s.size ∧
      (s.seek pos whence).stream.mem = s.mem ∧
      (s.seek pos whence).stream.offset.toNat =
        if s.target pos whence % 2 ^ 32 ≤ s.size.toNat then (s.target pos whence % 2 ^ 32).toNat
        else (s.size - 1).toNat := by
  have hsum := toNat_origin_add s pos whence
  have hlt := (s.origin whence + pos.toUInt32).toNat_lt
  unfold seek
  rw [if_pos (by simp [h])]
  refine ⟨rfl, rfl, rfl, ?_⟩
  dsimp only
  rw [if_neg (by omega), ← hsum]
  by_cases hfits : ((s.origin whence + pos.toUInt32).toNat : Int) ≤ s.size.toNat
  · rw [if_neg (by omega), if_pos hfits, Int.toNat_natCast, UInt32.toNat_ofNat',
      Nat.mod_eq_of_lt hlt]
  · rw [if_pos (by omega), if_neg hfits]

theorem seek_of_suspended (h : s.lastError ≠ none) (pos : Int32) (whence : Whence) :
    s.seek pos whence = ⟨s, s.offset, none⟩ := by
  unfold seek
  rw [if_neg (by simpa using h)]

theorem toNat_size_sub_one (s : UtilMem) :
    (s.size = 0 → (s.size - 1).toNat = 2 ^ 32 - 1) ∧
      (s.size ≠ 0 → (s.size - 1).toNat = s.size.toNat - 1) := by
  refine ⟨fun h => by rw [h]; rfl, fun h => ?_⟩
  have hpos : s.size.toNat ≠ 0 := fun h0 => h (UInt32.toNat_inj.1 h0)
  exact UInt32.toNat_sub_of_le _ _ (show 1 ≤ s.size.toNat by omega)

/-- A seek without a pending error goes to the nearest end exactly when its target
is inside, or in front of a stream of one byte. -/
theorem seek_clamp_iff (hle : s.offset.toNat ≤ s.size.toNat) (h : s.lastError = none) (pos : Int32)
    (whence : Whence) :
    ((s.seek pos whence).stream.offset.toNat : Int) = s.clamp (s.target pos whence) ↔
      (0 ≤ s.target pos whence ∧ s.target pos whence ≤ s.size.toNat ∨
        s.target pos whence < 0 ∧ s.size = 1) := by
  obtain ⟨hlow, hhigh⟩ := target_bounds s pos whence
  obtain ⟨hzero, hlast⟩ := toNat_size_sub_one s
  have horigin : (s.origin whence).toNat ≤ s.size.toNat := by
    cases whence with
    | CURRENT => exact hle
    | START => exact Nat.zero_le _
    | END => exact Nat.le_refl _
  have hsize := s.size.toNat_lt
  have hone : s.size = 1 ↔ s.size.toNat = 1 := UInt32.toNat_inj.symm
  have hempty : s.size = 0 ↔ s.size.toNat = 0 := UInt32.toNat_inj.symm
  rw [(seek_of_isNone h pos whence).2.2.2, hone]
  rw [hempty] at hzero
  rw [Ne, hempty] at hlast
  unfold clamp
  generalize s.target pos whence = t at *
  by_cases hneg : t < 0
  · by_cases h0 : s.size.toNat = 0
    · rw [hzero h0]
      split <;> omega
    · rw [hlast h0]
      split <;> omega
  · by_cases h0 : s.size.toNat = 0
    · rw [hzero h0]
      split <;> omega
    · rw [hlast h0]
      split <;> omega

end UtilMem

/-! ## One call -/

section Step

variable {s : UtilMem}

/-- A call that copies nothing and does not seek keeps the discipline in the stream. -/
theorem disciplined_of_idle {c : Call} (hseek : ∀ pos whence, c ≠ .seek pos whence)
    (hcopied : (c.run s).copied = none)
    (hle : (c.run s).stream.offset.toNat ≤ (c.run s).stream.size.toNat) : c.Disciplined s where
  inside p n hp := absurd (hcopied.symm.trans hp) (by simp)
  offset_le := hle
  sought pos whence hc := absurd hc (hseek pos whence)

theorem disciplined_transfer_iff (hle : s.offset.toNat ≤ s.size.toNat) {c : Call} {size : UInt32}
    (hseek : ∀ pos whence, c ≠ .seek pos whence)
    (hcopied : (c.run s).copied = some (s.offset.toNat, (s.transfer size).toNat))
    (hsize : (c.run s).stream.size = s.size)
    (hoffset : (c.run s).stream.offset = s.offset + s.transfer size) :
    c.Disciplined s ↔ s.offset.toNat + size.toNat < 2 ^ 32 := by
  constructor
  · intro hd
    have hin := hd.inside _ _ hcopied
    refine Nat.lt_of_not_le fun hsum => ?_
    obtain ⟨hfits, hout⟩ := UtilMem.transfer_wraps hle hsum
    rw [hsize, UtilMem.transfer, if_neg hfits] at hin
    omega
  · intro hnowrap
    have hin := UtilMem.transfer_le hle hnowrap
    have hstream := s.size.toNat_lt
    refine ⟨fun p n hp => ?_, ?_, fun pos whence hc => absurd hc (hseek pos whence)⟩
    · rw [hcopied] at hp
      cases hp
      rw [hsize]
      exact hin
    · rw [hoffset, hsize, UtilMem.toNat_add_of_lt (by omega)]
      exact hin

theorem no_wrap_of_zero (hle : s.offset.toNat ≤ s.size.toNat) {size : UInt32} (hzero : size = 0) :
    s.offset.toNat + size.toNat < 2 ^ 32 := by
  rw [hzero]
  exact Nat.lt_of_le_of_lt hle s.size.toNat_lt

theorem read_disciplined_iff (hle : s.offset.toNat ≤ s.size.toNat) (size : UInt32) :
    (Call.read size).Disciplined s ↔ (Call.read size).Good s := by
  by_cases hreads : s.Reads size
  · obtain ⟨-, hcopied, -, hsize, hoffset⟩ := UtilMem.read_of_reads hreads
    have hiff := disciplined_transfer_iff (c := .read size) hle (by simp) hcopied hsize hoffset
    rw [hiff]
    obtain ⟨hmem, heof, -, hnone⟩ := hreads
    exact ⟨fun hnowrap _ _ _ => hnowrap, fun hgood => hgood hmem heof hnone⟩
  · obtain ⟨-, hcopied, -, hsize, hoffset⟩ := UtilMem.read_of_not_reads hreads
    refine ⟨fun _ hmem heof hnone => no_wrap_of_zero hle ?_, fun _ =>
      disciplined_of_idle (by simp) hcopied ?_⟩
    · by_contra hne
      exact hreads ⟨hmem, heof, hne, hnone⟩
    · show (s.read size).stream.offset.toNat ≤ (s.read size).stream.size.toNat
      rw [hoffset, hsize]
      exact hle

theorem write_disciplined_iff (hle : s.offset.toNat ≤ s.size.toNat) (buffer : Mem) (size : UInt32)
    (fresh : Mem) :
    (Call.write buffer size fresh).Disciplined s ↔ (Call.write buffer size fresh).Good s := by
  by_cases hwrites : s.Writes size
  · by_cases hgrows : s.offset + size > s.size ∧ s.autoGrow = true
    · -- the block grows, so the sum did not wrap
      have hnowrap : s.offset.toNat + size.toNat < 2 ^ 32 :=
        Nat.lt_of_not_le fun hsum => (UtilMem.transfer_wraps hle hsum).1 hgrows.1
      have hgrown := UtilMem.write_of_grows hwrites hgrows.1 hgrows.2 buffer fresh
      refine ⟨fun _ _ _ _ => hnowrap, fun _ => ⟨fun p n hp => ?_, ?_, fun _ _ hc => nomatch hc⟩⟩
      · have hp' : (s.write buffer size fresh).copied = some (p, n) := hp
        show _ ≤ (s.write buffer size fresh).stream.size.toNat
        rw [hgrown] at hp' ⊢
        cases hp'
        exact Nat.le_of_eq (UtilMem.toNat_add_of_lt hnowrap).symm
      · show (s.write buffer size fresh).stream.offset.toNat
          ≤ (s.write buffer size fresh).stream.size.toNat
        rw [hgrown]
        exact Nat.le_refl _
    · obtain ⟨-, hcopied, -, hsize, hoffset⟩ :=
        UtilMem.write_of_writes hwrites hgrows buffer fresh
      have hiff := disciplined_transfer_iff (c := .write buffer size fresh) hle (by simp) hcopied
        hsize hoffset
      rw [hiff]
      obtain ⟨hmem, heof, -, hnone⟩ := hwrites
      exact ⟨fun hnowrap _ _ _ => hnowrap, fun hgood => hgood hmem heof hnone⟩
  · obtain ⟨-, hcopied, -, hsize, hoffset⟩ := UtilMem.write_of_not_writes hwrites buffer fresh
    refine ⟨fun _ hmem heof hnone => no_wrap_of_zero hle ?_, fun _ =>
      disciplined_of_idle (by simp) hcopied ?_⟩
    · by_contra hne
      exact hwrites ⟨hmem, heof, hne, hnone⟩
    · show (s.write buffer size fresh).stream.offset.toNat
        ≤ (s.write buffer size fresh).stream.size.toNat
      rw [hoffset, hsize]
      exact hle

theorem seek_disciplined_iff (hle : s.offset.toNat ≤ s.size.toNat) (pos : Int32) (whence : Whence) :
    (Call.seek pos whence).Disciplined s ↔ (Call.seek pos whence).Good s := by
  have hgood : (Call.seek pos whence).Good s ↔
      if s.lastError.isNone then
        0 ≤ s.target pos whence ∧ s.target pos whence ≤ s.size.toNat ∨
          s.target pos whence < 0 ∧ s.size = 1
      else s.clamp (s.target pos whence) = s.offset.toNat := Iff.rfl
  rw [hgood]
  by_cases hnone : s.lastError = none
  · obtain ⟨hcopied, hsize, -, -⟩ := UtilMem.seek_of_isNone hnone pos whence
    rw [if_pos (by simp [hnone]), ← UtilMem.seek_clamp_iff hle hnone]
    refine ⟨fun hd => hd.sought pos whence rfl, fun hclamp => ⟨fun p n hp => ?_, ?_, ?_⟩⟩
    · exact absurd (hcopied.symm.trans hp) (by simp)
    · show (s.seek pos whence).stream.offset.toNat ≤ (s.seek pos whence).stream.size.toNat
      rw [hsize]
      unfold UtilMem.clamp at hclamp
      omega
    · rintro pos' whence' ⟨⟩
      exact hclamp
  · have hrun := UtilMem.seek_of_suspended hnone pos whence
    rw [if_neg (by simpa using hnone)]
    refine ⟨fun hd => ?_, fun hclamp => ⟨fun p n hp => ?_, ?_, ?_⟩⟩
    · have hsought : ((s.seek pos whence).stream.offset.toNat : Int) = _ := hd.sought pos whence rfl
      rw [hrun] at hsought
      exact hsought.symm
    · have hp' : (s.seek pos whence).copied = some (p, n) := hp
      rw [hrun] at hp'
      cases hp'
    · show (s.seek pos whence).stream.offset.toNat ≤ (s.seek pos whence).stream.size.toNat
      rw [hrun]
      exact hle
    · rintro pos' whence' ⟨⟩
      show ((s.seek pos whence).stream.offset.toNat : Int) = _
      rw [hrun]
      exact hclamp.symm

theorem disciplined_iff_good (hle : s.offset.toNat ≤ s.size.toNat) (c : Call) :
    c.Disciplined s ↔ c.Good s := by
  cases c with
  | read size => exact read_disciplined_iff hle size
  | write buffer size fresh => exact write_disciplined_iff hle buffer size fresh
  | seek pos whence => exact seek_disciplined_iff hle pos whence
  | changeSize size fresh =>
    refine ⟨fun _ => trivial, fun _ => ?_⟩
    by_cases hclean : s.autoCleanup = true
    · have hrun : (Call.changeSize size fresh).run s
          = ⟨{ s.realloc size fresh with offset := 0 }, 0, none⟩ := if_pos hclean
      refine disciplined_of_idle (by simp) ?_ ?_ <;> rw [hrun]
      exact Nat.zero_le _
    · have hrun : (Call.changeSize size fresh).run s = ⟨s, 0, none⟩ := if_neg hclean
      refine disciplined_of_idle (by simp) ?_ ?_ <;> rw [hrun]
      exact hle
  | autoGrow flag =>
    refine ⟨fun _ => trivial, fun _ => disciplined_of_idle (by simp) rfl ?_⟩
    show (s.setAutoGrow flag).offset.toNat ≤ (s.setAutoGrow flag).size.toNat
    unfold UtilMem.setAutoGrow
    split <;> exact hle
  | getLastError =>
    exact ⟨fun _ => trivial, fun _ => disciplined_of_idle (by simp) rfl hle⟩

end Step

/-! ## The bytes that were written -/

namespace UtilMem

variable {s : UtilMem} {written : Nat → Option UInt8}

/-- Every byte that was written is in the block. -/
def Remembers (s : UtilMem) (written : Nat → Option UInt8) : Prop :=
  ∀ x b, written x = some b → x < s.size.toNat ∧ s.mem x = b

theorem Remembers.congr {s' : UtilMem} (h : s.Remembers written) (hsize : s'.size = s.size)
    (hmem : s'.mem = s.mem) : s'.Remembers written := by
  intro x b hx
  rw [hsize, hmem]
  exact h x b hx

theorem Remembers.realloc (h : s.Remembers written) {size : UInt32} (fresh : Mem)
    (hsize : ∀ x b, written x = some b → x < size.toNat) :
    (s.realloc size fresh).Remembers written := by
  intro x b hx
  obtain ⟨hlt, hmem⟩ := h x b hx
  refine ⟨hsize x b hx, ?_⟩
  show (if x < min s.size.toNat size.toNat then s.mem x else fresh x) = b
  rw [if_pos (Nat.lt_min.mpr ⟨hlt, hsize x b hx⟩)]
  exact hmem

theorem Remembers.put (h : s.Remembers written) (buffer : Mem) {rc : UInt32}
    (hin : s.offset.toNat + rc.toNat ≤ s.size.toNat) :
    (s.put buffer rc).Remembers fun x =>
      if s.offset.toNat ≤ x ∧ x < s.offset.toNat + rc.toNat then some (buffer (x - s.offset.toNat))
      else written x := by
  intro x b hx
  show x < s.size.toNat ∧ (if s.offset.toNat ≤ x ∧ x < s.offset.toNat + rc.toNat then
    buffer (x - s.offset.toNat) else s.mem x) = b
  dsimp only at hx
  by_cases hrange : s.offset.toNat ≤ x ∧ x < s.offset.toNat + rc.toNat
  · rw [if_pos hrange] at hx ⊢
    exact ⟨by omega, Option.some.inj hx⟩
  · rw [if_neg hrange] at hx ⊢
    exact h x b hx

theorem Remembers.write (h : s.Remembers written) (hle : s.offset.toNat ≤ s.size.toNat)
    (buffer fresh : Mem) {size : UInt32} (hgood : (Call.write buffer size fresh).Good s) :
    (s.write buffer size fresh).stream.Remembers
      (s.remember written (.write buffer size fresh)) := by
  show (s.write buffer size fresh).stream.Remembers fun x =>
    if s.offset.toNat ≤ x ∧ x < s.offset.toNat + (s.write buffer size fresh).rc.toNat then
      some (buffer (x - s.offset.toNat))
    else written x
  by_cases hwrites : s.Writes size
  · obtain ⟨hmem, heof, -, hnone⟩ := id hwrites
    have hsum := hgood hmem heof hnone
    by_cases hgrows : s.offset + size > s.size ∧ s.autoGrow = true
    · rw [write_of_grows hwrites hgrows.1 hgrows.2]
      have hgt : s.size.toNat < (s.offset + size).toNat := hgrows.1
      have hlarger : (s.realloc (s.offset + size) fresh).Remembers written :=
        h.realloc fresh fun x b hx => Nat.lt_trans (h x b hx).1 hgt
      exact hlarger.put buffer (Nat.le_of_eq (toNat_add_of_lt hsum).symm)
    · obtain ⟨hrc, -, hmem', hsize, -⟩ := write_of_writes hwrites hgrows buffer fresh
      rw [hrc]
      exact (h.put buffer (transfer_le hle hsum)).congr hsize hmem'
  · obtain ⟨hrc, -, hmem, hsize, -⟩ := write_of_not_writes hwrites buffer fresh
    rw [hrc]
    refine Remembers.congr (fun x b hx => ?_) hsize hmem
    rw [if_neg (by simp)] at hx
    exact h x b hx

theorem Remembers.run (h : s.Remembers written) (hle : s.offset.toNat ≤ s.size.toNat) (c : Call)
    (hgood : c.Good s) : (c.run s).stream.Remembers (s.remember written c) := by
  cases c with
  | read size =>
    by_cases hreads : s.Reads size
    · obtain ⟨-, -, hmem, hsize, -⟩ := read_of_reads hreads
      exact Remembers.congr h hsize hmem
    · obtain ⟨-, -, hmem, hsize, -⟩ := read_of_not_reads hreads
      exact Remembers.congr h hsize hmem
  | write buffer size fresh => exact h.write hle buffer fresh hgood
  | seek pos whence =>
    by_cases hnone : s.lastError = none
    · obtain ⟨-, hsize, hmem, -⟩ := seek_of_isNone hnone pos whence
      exact Remembers.congr h hsize hmem
    · show (s.seek pos whence).stream.Remembers written
      rw [seek_of_suspended hnone]
      exact h
  | changeSize size fresh =>
    by_cases hclean : s.autoCleanup = true
    · have hrun : (Call.changeSize size fresh).run s
          = ⟨{ s.realloc size fresh with offset := 0 }, 0, none⟩ := if_pos hclean
      rw [hrun]
      have hkept : s.Remembers (s.remember written (.changeSize size fresh)) := by
        intro x b hx
        have hx' : (if s.autoCleanup = true ∧ ¬ x < size.toNat then none else written x) = some b :=
          hx
        split at hx'
        · cases hx'
        · exact h x b hx'
      refine (hkept.realloc fresh fun x b hx => ?_).congr rfl rfl
      by_contra hge
      rw [remember, if_pos ⟨hclean, hge⟩] at hx
      cases hx
    · have hrun : (Call.changeSize size fresh).run s = ⟨s, 0, none⟩ := if_neg hclean
      rw [hrun]
      intro x b hx
      rw [remember, if_neg fun hbad => hclean hbad.1] at hx
      exact h x b hx
  | autoGrow flag =>
    show (s.setAutoGrow flag).Remembers written
    unfold setAutoGrow
    split
    · exact Remembers.congr h rfl rfl
    · exact h
  | getLastError => exact Remembers.congr h rfl rfl

theorem Remembers.faithful (h : s.Remembers written) (c : Call) : c.Faithful s written :=
  fun _ _ _ _ b hb => (h _ b hb).2

end UtilMem

/-! ## Runs -/

theorem disciplined_iff (calls : List Call) : ∀ {s : UtilMem}, s.offset.toNat ≤ s.size.toNat →
    (Disciplined s calls ↔ Good s calls) := by
  induction calls with
  | nil => exact fun _ => Iff.rfl
  | cons c cs ih =>
    intro s hle
    have hstep := disciplined_iff_good hle c
    constructor
    · exact fun h => ⟨hstep.1 h.1, (ih h.1.offset_le).1 h.2⟩
    · exact fun h => ⟨hstep.2 h.1, (ih (hstep.2 h.1).offset_le).2 h.2⟩

theorem faithful_of_good (calls : List Call) : ∀ {s : UtilMem} {written : Nat → Option UInt8},
    s.offset.toNat ≤ s.size.toNat → s.Remembers written → Good s calls →
      Faithful s written calls := by
  induction calls with
  | nil => exact fun _ _ _ => trivial
  | cons c cs ih =>
    intro s written hle hremembers h
    refine ⟨hremembers.faithful c, ?_⟩
    exact ih ((disciplined_iff_good hle c).2 h.1).offset_le (hremembers.run hle c h.1) h.2

theorem Constructor.offset_le (start : Constructor) :
    start.stream.offset.toNat ≤ start.stream.size.toNat := by
  cases start <;> exact Nat.zero_le _

/-- A run keeps the discipline exactly when its calls are good, and then every
`read` delivers the bytes that were written. -/
theorem disciplined_run_iff (start : Constructor) (calls : List Call) :
    (Disciplined start.stream calls ↔ Good start.stream calls) ∧
      (Good start.stream calls →
        Faithful start.stream (fun _ => none) calls) :=
  ⟨disciplined_iff calls start.offset_le,
    faithful_of_good calls start.offset_le fun _ _ hx => nomatch hx⟩

/-- In a stream of four bytes a seek in front of the start goes to the last byte. -/
theorem seek_negative : ¬ ∀ (start : Constructor) (calls : List Call),
    Disciplined start.stream calls ∧
      Faithful start.stream (fun _ => none) calls := by
  intro h
  have hdisciplined := (h (.allocated 4 fun _ => 0) [.seek (-1) .START]).1
  have hgood := (disciplined_iff _ (Constructor.offset_le _)).1 hdisciplined
  exact absurd hgood.1 (by
    rintro (⟨hlow, _⟩ | ⟨_, hone⟩)
    · exact absurd hlow (by decide)
    · exact absurd hone (by decide))

end Hostboot.Util.MemStream
