import Mathlib.Data.List.Basic
import Mathlib.Tactic

/-!
# Bit strings

A `BitString` reads and writes a buffer in fields of at most one 32 bit CPU
word, and every operation on whole strings is a loop over such fields:
`getField` and `setField` are the accesses, and `setChunks` is the loop that
copies a string.  The module has what the capture data uses of them.

A string is the list of its bits, bit 0 first.  A field is the list of the
bits that the left-justified CPU word holds.  The buffers that one operation
reads and writes are distinct, so the direction of a copy does not show.
-/

namespace Hostboot.Prdf

/-- A bit string: its bits, the leftmost first. -/
abbrev BitString : Type := List Bool

namespace BitString

def CPU_WORD_BIT_LEN : Nat := 32

/-- `BitStringBuffer(i_bitLen)`: a cleared buffer. -/
def buffer (bitLen : Nat) : BitString := List.replicate bitLen false

def getField (bs : BitString) (pos len : Nat) : List Bool := (bs.drop pos).take len

def setField (bs : BitString) (pos len : Nat) (val : List Bool) : BitString :=
  bs.take pos ++ (val.take len ++ bs.drop (pos + len))

/-! ## The loop over the fields of a string -/

/-- The loop of the operations: from the position `pos` on, write the field
`val pos len` at `dPos + pos`, one CPU word at a time, up to `actLen` bits. -/
def setChunks (val : Nat → Nat → List Bool) (dPos actLen : Nat) :
    Nat → Nat → BitString → BitString
  | 0, _, bs => bs
  | n + 1, pos, bs =>
    if pos < actLen then
      let len := min (actLen - pos) CPU_WORD_BIT_LEN
      setChunks val dPos actLen n (pos + CPU_WORD_BIT_LEN) (setField bs (dPos + pos) len (val pos len))
    else bs

/-- The number of turns of the loop. -/
def chunks (actLen : Nat) : Nat := (actLen + CPU_WORD_BIT_LEN - 1) / CPU_WORD_BIT_LEN

/-- Whether a property holds of all fields of the first `actLen` bits. -/
def allChunks (p : Nat → Nat → Bool) (actLen : Nat) : Nat → Nat → Bool
  | 0, _ => true
  | n + 1, pos =>
    if pos < actLen then
      if p pos (min (actLen - pos) CPU_WORD_BIT_LEN) then
        allChunks p actLen n (pos + CPU_WORD_BIT_LEN)
      else false
    else true

/-! ## The operations -/

/-- `setString` of another buffer, at the position `dPos`. -/
def setString (bs src : BitString) (dPos : Nat) : BitString :=
  let actLen := min src.length (bs.length - dPos)
  setChunks (getField src) dPos actLen (chunks actLen) 0 bs

def isZero (bs : BitString) : Bool :=
  allChunks (fun pos len => getField bs pos len == List.replicate len false) bs.length
    (chunks bs.length) 0

end BitString

end Hostboot.Prdf
