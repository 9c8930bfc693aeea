import Hostboot.Lib.RingBuffer
import Hostboot.Lib.Run
import Mathlib.Algebra.Group.Nat.Defs
import Mathlib.Logic.Function.Basic

/-!
# The reserved trace buffer

Run-time traces also go to a buffer in reserved memory, so that the next boot
finds the last of them after a crash.  The buffer holds entries of different
sizes in a circular doubly linked list, and drops the oldest ones for new ones.

The fields of an entry are kept under its address.  Sizes that the source
keeps in 32 bits are taken modulo `2 ^ 32`, addresses modulo `2 ^ 64`.
-/

namespace Hostboot.Trace.Rsvd

open Lib List
open Function (update update_of_ne update_self)

/-! ## The buffer -/

/-- `Entry`.  The address zero is the null pointer. -/
structure Entry where
  comp : Nat
  next : Nat
  prev : Nat
  committed : UInt16
  size : UInt16
  data : List UInt8
  deriving DecidableEq, Repr

/-- `RsvdTraceBuffer`: `head` is what `iv_ptrToHead` points to, and `mem` the
memory of the entries. -/
structure RsvdTraceBuffer where
  isBufferValid : Bool
  bufferBeginningBoundary : Nat
  bufferEndingBoundary : Nat
  head : Nat
  mem : Nat → Entry

/-- `sizeof(Entry)`. -/
def sizeofEntry : Nat := 32

/-- `ALIGN_8`. -/
def align8 (n : Nat) : Nat := (n + 7) / 8 * 8

/-- `BUFFER_BEGINNINIG_BOUNDARY_OFFSET`, after the pointer that tells whether
the memory has moved. -/
def BUFFER_BEGINNINIG_BOUNDARY_OFFSET : Nat := 8

def getAlignedSizeOfEntry (dataSize : Nat) : Nat := align8 (sizeofEntry + dataSize) % 2 ^ 32

/-- The difference of two addresses. -/
def subAddr (a b : Nat) : Nat := (a + 2 ^ 64 - b) % 2 ^ 64

namespace RsvdTraceBuffer

/-- The buffer after `init` and `clearBuffer`: empty, whatever the memory
holds.  It is valid when it has room for more than the boundary. -/
def init (bufferSize addressToBuffer : Nat) (mem : Nat → Entry) : RsvdTraceBuffer where
  isBufferValid := BUFFER_BEGINNINIG_BOUNDARY_OFFSET < bufferSize ∧ 0 < addressToBuffer
  bufferBeginningBoundary := addressToBuffer + BUFFER_BEGINNINIG_BOUNDARY_OFFSET
  bufferEndingBoundary := addressToBuffer + bufferSize - 1
  head := 0
  mem := mem

/-- An assignment to the `next` field of the entry at `a`. -/
def setNext (s : RsvdTraceBuffer) (a v : Nat) : RsvdTraceBuffer :=
  { s with mem := update s.mem a { s.mem a with next := v } }

/-- An assignment to the `prev` field of the entry at `a`. -/
def setPrev (s : RsvdTraceBuffer) (a v : Nat) : RsvdTraceBuffer :=
  { s with mem := update s.mem a { s.mem a with prev := v } }

def setListHead (s : RsvdTraceBuffer) (entry : Nat) : RsvdTraceBuffer :=
  let s := if entry ≠ 0 then (s.setPrev entry entry).setNext entry entry else s
  { s with head := entry }

def setListTail (s : RsvdTraceBuffer) (newEntry : Nat) : RsvdTraceBuffer :=
  if s.head ≠ 0 ∧ newEntry ≠ 0 then
    let tail := (s.mem s.head).prev
    let s := s.setNext newEntry s.head
    let s := s.setPrev newEntry tail
    let s := s.setPrev s.head newEntry
    s.setNext tail newEntry
  else if newEntry ≠ 0 then s.setListHead newEntry
  else s

def getBufferSize (s : RsvdTraceBuffer) : Nat :=
  (s.bufferEndingBoundary - s.bufferBeginningBoundary + 1) % 2 ^ 32

def getEndingAddressOfEntry (s : RsvdTraceBuffer) (entry : Nat) : Nat :=
  entry + getAlignedSizeOfEntry (s.mem entry).size.toNat - 1

/-- `getAvailableSpace`: the space and its address. -/
def getAvailableSpace (s : RsvdTraceBuffer) (spaceNeeded : Nat) : Nat × Nat :=
  if s.head = 0 then (s.getBufferSize, s.bufferBeginningBoundary)
  else
    let tailAddrEnd := s.getEndingAddressOfEntry (s.mem s.head).prev
    if s.head ≤ tailAddrEnd then
      let spaceAtEnd := subAddr s.bufferEndingBoundary tailAddrEnd
      let spaceAtBeginning := subAddr s.head s.bufferBeginningBoundary
      if spaceNeeded ≤ spaceAtEnd then (spaceAtEnd % 2 ^ 32, tailAddrEnd + 1)
      else (spaceAtBeginning % 2 ^ 32, s.bufferBeginningBoundary)
    else ((subAddr s.head tailAddrEnd + 1) % 2 ^ 32, tailAddrEnd + 1)

/-- `removeOldestEntry`: whether an entry was removed.  The new head goes
through `setListHead` as well. -/
def removeOldestEntry (s : RsvdTraceBuffer) : Bool × RsvdTraceBuffer :=
  if s.head = 0 then (false, s)
  else if (s.mem s.head).next = s.head then (true, s.setListHead 0)
  else
    let s := s.setPrev (s.mem s.head).next (s.mem s.head).prev
    let s := s.setNext (s.mem s.head).prev (s.mem s.head).next
    (true, s.setListHead (s.mem s.head).next)

/-- The removals that empty the list. -/
def removals (s : RsvdTraceBuffer) : Nat :=
  if s.head = 0 then 0 else if (s.mem s.head).next = s.head then 1 else 2

/-- The loop of `makeSpaceForEntry`: the space, its address and the buffer.
The first argument bounds the removals. -/
def makeSpace (spaceNeeded : Nat) : Nat → RsvdTraceBuffer → Option (Nat × Nat × RsvdTraceBuffer)
  | n, s =>
    let space := s.getAvailableSpace spaceNeeded
    if spaceNeeded ≤ space.1 then some (space.1, space.2, s)
    else
      match n with
      | 0 => none
      | n + 1 =>
        if s.removeOldestEntry.1 then makeSpace spaceNeeded n s.removeOldestEntry.2
        else some (0, space.2, s.removeOldestEntry.2)

def makeSpaceForEntry (s : RsvdTraceBuffer) (spaceNeeded : Nat) :
    Option (Nat × Nat × RsvdTraceBuffer) :=
  if spaceNeeded ≤ s.getBufferSize then makeSpace spaceNeeded s.removals s else some (0, 0, s)

/-- `insertEntry`: the address of the new entry, zero without one. -/
def insertEntry (s : RsvdTraceBuffer) (dataSize : Nat) : Option (Nat × RsvdTraceBuffer) :=
  if s.isBufferValid then do
    let (space, availableAddress, s) ← s.makeSpaceForEntry (getAlignedSizeOfEntry dataSize)
    if space ≠ 0 ∧ availableAddress ≠ 0 then some (availableAddress, s.setListTail availableAddress)
    else some (0, s)
  else some (0, s)

end RsvdTraceBuffer

/-- What a client stores in an entry. -/
structure Content where
  comp : Nat
  committed : UInt16
  data : List UInt8
  deriving DecidableEq, Repr

namespace RsvdTraceBuffer

/-- The client stores its data in the entry that it was given. -/
def store (s : RsvdTraceBuffer) (entry : Nat) (c : Content) : RsvdTraceBuffer :=
  { s with
    mem := update s.mem entry { s.mem entry with
      comp := c.comp, committed := c.committed, size := UInt16.ofNat c.data.length, data := c.data } }

/-- `insertEntry`, and what its caller does with the entry. -/
def insertContent (s : RsvdTraceBuffer) (c : Content) : Option (Nat × RsvdTraceBuffer) := do
  let (entry, s) ← s.insertEntry c.data.length
  if entry ≠ 0 then some (entry, s.store entry c) else some (0, s)

/-- `RsvdTraceBufService::writeEntry`.  A null pointer to the data is `none`. -/
def writeEntry (s : RsvdTraceBuffer) (componentDesc : Nat) (data : Option (List UInt8)) :
    Option (Nat × RsvdTraceBuffer) :=
  match data with
  | some d =>
    if componentDesc ≠ 0 ∧ 0 < d.length then s.insertContent ⟨componentDesc, 1, d⟩ else some (0, s)
  | none => some (0, s)

end RsvdTraceBuffer

/-! ## Runs -/

/-- A call: of `writeEntry`, or of `insertEntry` by another client. -/
inductive Call
  | writeEntry (componentDesc : Nat) (data : Option (List UInt8))
  | insertEntry (c : Content)
  deriving DecidableEq, Repr

/-- The content that a call asks an entry for, if it gets that far. -/
def Call.content : Call → Option Content
  | .writeEntry comp (some d) => if comp ≠ 0 ∧ 0 < d.length then some ⟨comp, 1, d⟩ else none
  | .writeEntry _ none => none
  | .insertEntry c => some c

/-- The buffer after a call, and the entry of the call. -/
def RsvdTraceBuffer.call (s : RsvdTraceBuffer) : Call → Option (Nat × RsvdTraceBuffer)
  | .writeEntry comp d => s.writeEntry comp d
  | .insertEntry c => s.insertContent c

/-- The step relation: a call, and the entry that it was given. -/
def Step (s : RsvdTraceBuffer) (l : Call × Nat) (s' : RsvdTraceBuffer) : Prop :=
  s.call l.1 = some (l.2, s')

/-- What the calls of a run have inserted, oldest first. -/
def inserted (ls : List (Call × Nat)) : List Content :=
  ls.flatMap fun l => if l.2 ≠ 0 then l.1.content.toList else []

/-! ## Consistent buffers -/

/-- The content of the entry at an address. -/
def RsvdTraceBuffer.content (s : RsvdTraceBuffer) (a : Nat) : Content :=
  ⟨(s.mem a).comp, (s.mem a).committed, (s.mem a).data⟩

/-- The bytes that the entries at the addresses `xs` occupy. -/
def RsvdTraceBuffer.blocks (s : RsvdTraceBuffer) (xs : List Nat) : List Block :=
  xs.map fun a => (a, getAlignedSizeOfEntry (s.mem a).size.toNat)

/-- A valid buffer is a range of addresses, with a size of 32 bits. -/
def RsvdTraceBuffer.Sized (s : RsvdTraceBuffer) : Prop :=
  s.isBufferValid = true → 0 < s.bufferBeginningBoundary ∧
    s.bufferBeginningBoundary ≤ s.bufferEndingBoundary ∧ s.bufferEndingBoundary < 2 ^ 64 ∧
    s.bufferEndingBoundary + 1 - s.bufferBeginningBoundary < 2 ^ 32

/-- The entries of the ring are at the addresses `xs`, oldest first. -/
structure Consistent (s : RsvdTraceBuffer) (xs : List Nat) : Prop where
  head : s.head = xs.headD 0
  pos : ∀ a ∈ xs, 0 < a
  ring : Ring (fun a => (s.mem a).next) (fun a => (s.mem a).prev) xs
  placed : xs = [] ∨
    Placed s.bufferBeginningBoundary (s.bufferEndingBoundary + 1) (s.blocks xs)
  aligned : ∀ a ∈ xs, 8 ∣ a - s.bufferBeginningBoundary
  sizes : ∀ a ∈ xs, (s.mem a).size.toNat = (s.mem a).data.length

/-- What list operations leave alone: the boundaries, and what the clients have
stored. -/
structure Frame (s s' : RsvdTraceBuffer) : Prop where
  valid : s'.isBufferValid = s.isBufferValid
  first : s'.bufferBeginningBoundary = s.bufferBeginningBoundary
  last : s'.bufferEndingBoundary = s.bufferEndingBoundary
  size : ∀ a, (s'.mem a).size = (s.mem a).size
  data : ∀ a, (s'.mem a).data = (s.mem a).data
  content : ∀ a, s'.content a = s.content a

namespace Frame

variable {s s' s'' : RsvdTraceBuffer}

theorem refl (s : RsvdTraceBuffer) : Frame s s := ⟨rfl, rfl, rfl, fun _ => rfl, fun _ => rfl,
  fun _ => rfl⟩

theorem trans (h : Frame s s') (h' : Frame s' s'') : Frame s s'' where
  valid := h'.valid.trans h.valid
  first := h'.first.trans h.first
  last := h'.last.trans h.last
  size a := (h'.size a).trans (h.size a)
  data a := (h'.data a).trans (h.data a)
  content a := (h'.content a).trans (h.content a)

theorem blocks (h : Frame s s') (xs : List Nat) : s'.blocks xs = s.blocks xs := by
  unfold RsvdTraceBuffer.blocks
  exact map_congr_left fun a _ => by rw [h.size a]

theorem sized (h : Frame s s') (hs : s.Sized) : s'.Sized := by
  intro hvalid
  rw [h.first, h.last]
  exact hs (h.valid ▸ hvalid)

theorem update_field {β : Type} {e : Entry} {a : Nat} (f : Entry → β) (hf : f e = f (s.mem a))
    (b : Nat) : f (update s.mem a e b) = f (s.mem b) := by
  by_cases hb : b = a
  · rw [hb, update_self, hf]
  · rw [update_of_ne hb]

theorem setNext (s : RsvdTraceBuffer) (a v : Nat) : Frame s (s.setNext a v) :=
  ⟨rfl, rfl, rfl, update_field Entry.size rfl, update_field Entry.data rfl,
    update_field (fun e => Content.mk e.comp e.committed e.data) rfl⟩

theorem setPrev (s : RsvdTraceBuffer) (a v : Nat) : Frame s (s.setPrev a v) :=
  ⟨rfl, rfl, rfl, update_field Entry.size rfl, update_field Entry.data rfl,
    update_field (fun e => Content.mk e.comp e.committed e.data) rfl⟩

theorem setListHead (s : RsvdTraceBuffer) (a : Nat) : Frame s (s.setListHead a) := by
  have hhead : ∀ (t : RsvdTraceBuffer), Frame t { t with head := a } :=
    fun t => ⟨rfl, rfl, rfl, fun _ => rfl, fun _ => rfl, fun _ => rfl⟩
  unfold RsvdTraceBuffer.setListHead
  dsimp only
  split
  · exact ((setPrev _ _ _).trans (setNext _ _ _)).trans (hhead _)
  · exact hhead _

theorem setListTail (s : RsvdTraceBuffer) (a : Nat) : Frame s (s.setListTail a) := by
  unfold RsvdTraceBuffer.setListTail
  dsimp only
  split
  · exact (((setNext _ _ _).trans (setPrev _ _ _)).trans (setPrev _ _ _)).trans (setNext _ _ _)
  · split
    · exact setListHead _ _
    · exact refl _

theorem removeOldestEntry (s : RsvdTraceBuffer) : Frame s s.removeOldestEntry.2 := by
  unfold RsvdTraceBuffer.removeOldestEntry
  dsimp only
  split
  · exact refl _
  · split
    · exact setListHead _ _
    · exact ((setPrev _ _ _).trans (setNext _ _ _)).trans (setListHead _ _)

end Frame

/-! ### Pointers -/

namespace RsvdTraceBuffer

theorem next_setNext (s : RsvdTraceBuffer) (a v b : Nat) :
    ((s.setNext a v).mem b).next = if b = a then v else (s.mem b).next := by
  show (update s.mem a _ b).next = _
  by_cases hb : b = a
  · rw [hb, update_self, if_pos rfl]
  · rw [update_of_ne hb, if_neg hb]

theorem prev_setNext (s : RsvdTraceBuffer) (a v b : Nat) :
    ((s.setNext a v).mem b).prev = (s.mem b).prev := by
  show (update s.mem a _ b).prev = _
  by_cases hb : b = a
  · rw [hb, update_self]
  · rw [update_of_ne hb]

theorem prev_setPrev (s : RsvdTraceBuffer) (a v b : Nat) :
    ((s.setPrev a v).mem b).prev = if b = a then v else (s.mem b).prev := by
  show (update s.mem a _ b).prev = _
  by_cases hb : b = a
  · rw [hb, update_self, if_pos rfl]
  · rw [update_of_ne hb, if_neg hb]

theorem next_setPrev (s : RsvdTraceBuffer) (a v b : Nat) :
    ((s.setPrev a v).mem b).next = (s.mem b).next := by
  show (update s.mem a _ b).next = _
  by_cases hb : b = a
  · rw [hb, update_self]
  · rw [update_of_ne hb]

theorem setListHead_ring (s : RsvdTraceBuffer) {a : Nat} (ha : a ≠ 0) :
    (s.setListHead a).head = a ∧ ((s.setListHead a).mem a).next = a ∧
      ((s.setListHead a).mem a).prev = a := by
  unfold setListHead
  rw [if_pos ha]
  refine ⟨rfl, ?_, ?_⟩
  · show (((s.setPrev a a).setNext a a).mem a).next = a
    rw [next_setNext, if_pos rfl]
  · show (((s.setPrev a a).setNext a a).mem a).prev = a
    rw [prev_setNext, prev_setPrev, if_pos rfl]

end RsvdTraceBuffer

namespace Consistent

variable {s s' : RsvdTraceBuffer} {xs : List Nat}

theorem nodup (h : Consistent s xs) : xs.Nodup := by
  rcases h.placed with rfl | hplaced
  · exact nodup_nil
  · have hn := hplaced.nodup
    rw [RsvdTraceBuffer.blocks, map_map] at hn
    have hid : xs.map (Prod.fst ∘ fun a => (a, getAlignedSizeOfEntry (s.mem a).size.toNat)) = xs :=
      map_id' xs
    rw [hid] at hn
    exact hn

theorem head_eq_zero (h : Consistent s xs) : s.head = 0 ↔ xs = [] := by
  rw [h.head]
  cases xs with
  | nil => exact ⟨fun _ => rfl, fun _ => rfl⟩
  | cons a xs =>
    have ha := h.pos a mem_cons_self
    constructor
    · intro hzero
      have : a = 0 := hzero
      omega
    · intro hnil
      exact absurd hnil (by simp)

theorem prev_head (h : Consistent s xs) {b : Nat} (hb : xs.getLast? = some b) :
    (s.mem s.head).prev = b := by
  cases xs with
  | nil => exact absurd hb (by simp)
  | cons a xs =>
    rw [h.head]
    exact (h.ring.2 a b rfl hb).2

theorem of_ring (h : Consistent s xs) (hframe : Frame s s') {ys : List Nat}
    (hsub : ys.Sublist xs) (hhead : s'.head = ys.headD 0)
    (hring : Ring (fun a => (s'.mem a).next) (fun a => (s'.mem a).prev) ys)
    (hplaced : ys = [] ∨
      Placed s.bufferBeginningBoundary (s.bufferEndingBoundary + 1) (s.blocks ys)) :
    Consistent s' ys where
  head := hhead
  pos a ha := h.pos a (hsub.subset ha)
  ring := hring
  placed := by
    rw [hframe.first, hframe.last, hframe.blocks]
    exact hplaced
  aligned a ha := by
    rw [hframe.first]
    exact h.aligned a (hsub.subset ha)
  sizes a ha := by
    rw [hframe.size, hframe.data]
    exact h.sizes a (hsub.subset ha)

theorem remove_one {a : Nat} (h : Consistent s [a]) :
    s.removeOldestEntry.1 = true ∧ Consistent s.removeOldestEntry.2 [] := by
  have ha : a ≠ 0 := Nat.ne_of_gt (h.pos a mem_cons_self)
  have hnext : (s.mem a).next = a := (h.ring.2 a a rfl rfl).1
  have hhead : s.head = a := h.head
  have heq : s.removeOldestEntry = (true, s.setListHead 0) := by
    unfold RsvdTraceBuffer.removeOldestEntry
    rw [hhead, if_neg ha, if_pos hnext]
  rw [heq]
  exact ⟨rfl, h.of_ring (Frame.setListHead _ _) (nil_sublist _) rfl Ring.nil (Or.inl rfl)⟩

theorem remove_two {a b : Nat} (h : Consistent s [a, b]) :
    s.removeOldestEntry.1 = true ∧ Consistent s.removeOldestEntry.2 [b] := by
  have ha : a ≠ 0 := Nat.ne_of_gt (h.pos a mem_cons_self)
  have hb : b ≠ 0 := Nat.ne_of_gt (h.pos b (mem_cons_of_mem _ mem_cons_self))
  have hab : a ≠ b := by
    have hn := h.nodup
    simpa using hn
  have hnext : (s.mem a).next = b := (h.ring.1 0 a b rfl rfl).1
  have hhead : s.head = a := h.head
  have hframe := Frame.removeOldestEntry s
  have hnext' : ∀ v w, (((s.setPrev b v).setNext w b).mem a).next = b := by
    intro v w
    rw [RsvdTraceBuffer.next_setNext, RsvdTraceBuffer.next_setPrev, hnext, ite_self]
  have heq : ∃ t, s.removeOldestEntry = (true, RsvdTraceBuffer.setListHead t b) := by
    unfold RsvdTraceBuffer.removeOldestEntry
    have hhead' : (s.setPrev b (s.mem a).prev).head = a := hhead
    have hhead'' : ∀ v w, ((s.setPrev b (s.mem a).prev).setNext v w).head = a := fun _ _ => hhead
    rw [hhead, if_neg ha, hnext, if_neg hab.symm]
    dsimp only
    rw [hhead', RsvdTraceBuffer.next_setPrev, hnext, hhead'', hnext']
    exact ⟨_, rfl⟩
  obtain ⟨t, ht⟩ := heq
  obtain ⟨hhead', hnextb, hprevb⟩ := t.setListHead_ring hb
  have hplaced : Placed s.bufferBeginningBoundary (s.bufferEndingBoundary + 1) (s.blocks [b]) := by
    rcases h.placed with hnil | hplaced
    · exact absurd hnil (by simp)
    · exact hplaced.tail
  refine ⟨by rw [ht], h.of_ring hframe (sublist_cons_self _ _) ?_ ?_ (Or.inr hplaced)⟩
  · rw [ht]
    exact hhead'
  · rw [ht]
    exact Ring.singleton hnextb hprevb

end Consistent

/-! ### The space that is found -/

theorem getAlignedSizeOfEntry_spec {n : Nat} (hn : n < 65536) :
    8 ∣ getAlignedSizeOfEntry n ∧ 32 ≤ getAlignedSizeOfEntry n ∧
      getAlignedSizeOfEntry n < 2 ^ 32 := by
  have heq : getAlignedSizeOfEntry n = (32 + n + 7) / 8 * 8 := by
    unfold getAlignedSizeOfEntry align8 sizeofEntry
    exact Nat.mod_eq_of_lt (by omega)
  rw [heq]
  refine ⟨Nat.dvd_mul_left _ _, by omega, by omega⟩

namespace Consistent

variable {s s' : RsvdTraceBuffer} {xs : List Nat}

theorem size_spec (s : RsvdTraceBuffer) (a : Nat) :
    8 ∣ getAlignedSizeOfEntry (s.mem a).size.toNat ∧
      32 ≤ getAlignedSizeOfEntry (s.mem a).size.toNat :=
  have hspec := getAlignedSizeOfEntry_spec (s.mem a).size.toNat_lt
  ⟨hspec.1, hspec.2.1⟩

/-- `getAvailableSpace` finds the room of the blocks.  Between the tail and the
head it counts two bytes too many, which no aligned entry can use. -/
theorem getAvailableSpace_eq (h : Consistent s xs) (hs : s.Sized) (hvalid : s.isBufferValid = true)
    {need : Nat} (hneed : 8 ∣ need) :
    (need ≤ (s.getAvailableSpace need).1 ↔
      need ≤ (room s.bufferBeginningBoundary (s.bufferEndingBoundary + 1) need (s.blocks xs)).1) ∧
    (s.getAvailableSpace need).2
      = (room s.bufferBeginningBoundary (s.bufferEndingBoundary + 1) need (s.blocks xs)).2 := by
  obtain ⟨hpos, horder, hword, hsmall⟩ := hs hvalid
  unfold RsvdTraceBuffer.getAvailableSpace
  cases hfirst : xs.head? with
  | none =>
    have hnil : xs = [] := head?_eq_none_iff.mp hfirst
    rw [if_pos (h.head_eq_zero.mpr hnil), hnil]
    simp only [RsvdTraceBuffer.blocks, map_nil, room, head?_nil,
      RsvdTraceBuffer.getBufferSize]
    rw [Nat.mod_eq_of_lt (by omega), show s.bufferEndingBoundary - s.bufferBeginningBoundary + 1
      = s.bufferEndingBoundary + 1 - s.bufferBeginningBoundary by omega]
    exact ⟨Iff.rfl, trivial⟩
  | some a =>
    have hne : xs ≠ [] := by
      rintro rfl
      exact absurd hfirst (by simp)
    obtain ⟨b, hlast⟩ : ∃ b, xs.getLast? = some b := ⟨_, getLast?_eq_some_getLast hne⟩
    have hplaced := h.placed.resolve_left hne
    have hamem := mem_of_mem_head? hfirst
    have hbmem := mem_of_getLast? hlast
    have hhead : s.head = a := by
      rw [h.head, headD_eq_head?_getD, hfirst]
      rfl
    have hzero : s.head ≠ 0 := fun hz => hne (h.head_eq_zero.mp hz)
    have hblock : ∀ x ∈ xs, (x, getAlignedSizeOfEntry (s.mem x).size.toNat) ∈ s.blocks xs :=
      fun x hx => mem_map_of_mem hx
    have ha := hplaced.bounds (hblock a hamem)
    have hb := hplaced.bounds (hblock b hbmem)
    have hadiv := h.aligned a hamem
    have hbdiv := h.aligned b hbmem
    obtain ⟨hsizediv, hsizepos⟩ := size_spec s b
    have hroom : room s.bufferBeginningBoundary (s.bufferEndingBoundary + 1) need (s.blocks xs)
        = if a < b + getAlignedSizeOfEntry (s.mem b).size.toNat then
            if need ≤ s.bufferEndingBoundary + 1 - (b + getAlignedSizeOfEntry (s.mem b).size.toNat)
            then (s.bufferEndingBoundary + 1 - (b + getAlignedSizeOfEntry (s.mem b).size.toNat),
              b + getAlignedSizeOfEntry (s.mem b).size.toNat)
            else (a - s.bufferBeginningBoundary, s.bufferBeginningBoundary)
          else (a - (b + getAlignedSizeOfEntry (s.mem b).size.toNat),
            b + getAlignedSizeOfEntry (s.mem b).size.toNat) := by
      simp only [room, RsvdTraceBuffer.blocks, head?_map, getLast?_map, hfirst, hlast,
        Option.map_some]
    rw [if_neg hzero, hroom, h.prev_head hlast, hhead]
    unfold RsvdTraceBuffer.getEndingAddressOfEntry subAddr
    generalize hsize : getAlignedSizeOfEntry (s.mem b).size.toNat = n at *
    dsimp only at ha hb
    by_cases hafter : a < b + n
    · rw [if_pos hafter, if_pos (by omega)]
      have hend : (s.bufferEndingBoundary + 2 ^ 64 - (b + n - 1)) % 2 ^ 64
          = s.bufferEndingBoundary + 1 - (b + n) := by omega
      have hbegin : (a + 2 ^ 64 - s.bufferBeginningBoundary) % 2 ^ 64
          = a - s.bufferBeginningBoundary := by omega
      rw [hend, hbegin]
      by_cases hfit : need ≤ s.bufferEndingBoundary + 1 - (b + n)
      · rw [if_pos hfit, if_pos hfit]
        dsimp only
        rw [Nat.mod_eq_of_lt (by omega)]
        exact ⟨Iff.rfl, by omega⟩
      · rw [if_neg hfit, if_neg hfit]
        dsimp only
        rw [Nat.mod_eq_of_lt (by omega)]
        exact ⟨Iff.rfl, rfl⟩
    · rw [if_neg hafter, if_neg (by omega)]
      have hgap : (a + 2 ^ 64 - (b + n - 1)) % 2 ^ 64 = a - (b + n) + 1 := by omega
      dsimp only
      rw [hgap, Nat.mod_eq_of_lt (by omega)]
      refine ⟨?_, by omega⟩
      -- the gap between two entries is a multiple of eight
      omega

theorem room_aligned (h : Consistent s' xs) (hframe : Frame s s') (need : Nat) :
    8 ∣ (room s.bufferBeginningBoundary (s.bufferEndingBoundary + 1) need (s.blocks xs)).2
      - s.bufferBeginningBoundary := by
  have hbottom : 8 ∣ s.bufferBeginningBoundary - s.bufferBeginningBoundary := by
    rw [Nat.sub_self]
    exact Nat.dvd_zero _
  unfold room
  cases hlast : xs.getLast? with
  | none =>
    have hnil := getLast?_eq_none_iff.mp hlast
    rw [hnil]
    exact hbottom
  | some b =>
    have hmem := mem_of_getLast? hlast
    have hdiv := h.aligned b hmem
    rw [hframe.first] at hdiv
    have hbounds : s.bufferBeginningBoundary ≤ b := by
      rcases h.placed with hnil | hplaced
      · rw [hnil] at hmem
        exact absurd hmem not_mem_nil
      · have hb := hplaced.bounds (mem_map_of_mem hmem)
        rw [hframe.first] at hb
        exact hb.1
    obtain ⟨hsize, _⟩ := size_spec s b
    have htop : 8 ∣ b + getAlignedSizeOfEntry (s.mem b).size.toNat
        - s.bufferBeginningBoundary := by omega
    cases hfirst : xs.head? with
    | none =>
      rw [head?_eq_none_iff.mp hfirst] at hmem
      exact absurd hmem not_mem_nil
    | some a =>
      simp only [RsvdTraceBuffer.blocks, head?_map, getLast?_map, hfirst, hlast,
        Option.map_some]
      split
      · split
        · exact htop
        · exact hbottom
      · exact htop

/-- A new entry at the end of the ring, once its client has stored its data. -/
theorem add (h : Consistent s xs) (c : Content) (hc : c.data.length < 65536) {a : Nat}
    (ha : 0 < a) (hdiv : 8 ∣ a - s.bufferBeginningBoundary)
    (hplaced : Placed s.bufferBeginningBoundary (s.bufferEndingBoundary + 1)
      (s.blocks xs ++ [(a, getAlignedSizeOfEntry c.data.length)])) :
    Consistent ((s.setListTail a).store a c) (xs ++ [a]) ∧
      ((s.setListTail a).store a c).content a = c ∧
      ∀ b ∈ xs, ((s.setListTail a).store a c).content b = s.content b := by
  have hframe := Frame.setListTail s a
  have hsize : (UInt16.ofNat c.data.length).toNat = c.data.length := by
    rw [UInt16.toNat_ofNat']
    exact Nat.mod_eq_of_lt hc
  have hnotin : a ∉ xs := by
    have hn := hplaced.nodup
    rw [map_append, RsvdTraceBuffer.blocks, map_map] at hn
    intro hmem
    refine (nodup_append.mp hn).2.2 a (mem_map.mpr ⟨a, hmem, rfl⟩) a ?_ rfl
    exact mem_singleton_self _
  have hother : ∀ b ∈ xs, b ≠ a := fun b hb heq => hnotin (heq ▸ hb)
  have hkeep : ∀ b, b ≠ a → ((s.setListTail a).store a c).mem b = (s.setListTail a).mem b :=
    fun b hb => update_of_ne hb _ _
  have hself : ((s.setListTail a).store a c).mem a = { (s.setListTail a).mem a with
      comp := c.comp, committed := c.committed, size := UInt16.ofNat c.data.length,
      data := c.data } := update_self ..
  have hlinks : ∀ b, (((s.setListTail a).store a c).mem b).next = ((s.setListTail a).mem b).next ∧
      (((s.setListTail a).store a c).mem b).prev = ((s.setListTail a).mem b).prev := by
    intro b
    by_cases hb : b = a
    · rw [hb, hself]
      exact ⟨rfl, rfl⟩
    · rw [hkeep b hb]
      exact ⟨rfl, rfl⟩
  refine ⟨⟨?_, ?_, ?_, ?_, ?_, ?_⟩, ?_, ?_⟩
  · -- the head stays, or is the new entry
    show (s.setListTail a).head = _
    unfold RsvdTraceBuffer.setListTail
    by_cases hzero : s.head = 0
    · rw [if_neg (fun hboth => hboth.1 hzero), if_pos (Nat.ne_of_gt ha), h.head_eq_zero.mp hzero]
      exact (s.setListHead_ring (Nat.ne_of_gt ha)).1
    · rw [if_pos ⟨hzero, Nat.ne_of_gt ha⟩]
      show s.head = _
      rw [h.head]
      cases xs with
      | nil => exact absurd (h.head_eq_zero.mpr rfl) hzero
      | cons x xs => rfl
  · intro b hb
    rcases mem_append.mp hb with hin | hin
    · exact h.pos b hin
    · rw [mem_singleton.mp hin]
      exact ha
  · refine Ring.congr ?_ (fun b _ => (hlinks b).1) (fun b _ => (hlinks b).2)
    unfold RsvdTraceBuffer.setListTail
    by_cases hzero : s.head = 0
    · rw [if_neg (fun hboth => hboth.1 hzero), if_pos (Nat.ne_of_gt ha), h.head_eq_zero.mp hzero]
      obtain ⟨_, hnext, hprev⟩ := s.setListHead_ring (Nat.ne_of_gt ha)
      exact Ring.singleton hnext hprev
    · rw [if_pos ⟨hzero, Nat.ne_of_gt ha⟩]
      have hne : xs ≠ [] := fun hnil => hzero (h.head_eq_zero.mpr hnil)
      obtain ⟨b, hlast⟩ : ∃ b, xs.getLast? = some b := ⟨_, getLast?_eq_some_getLast hne⟩
      have hfirst : xs.head? = some s.head := by
        cases xs with
        | nil => exact absurd rfl hne
        | cons x xs => rw [h.head, head?_cons, headD_cons]
      have hfa : s.head ≠ a := hother _ (mem_of_mem_head? hfirst)
      have hba : b ≠ a := hother _ (mem_of_getLast? hlast)
      refine h.ring.append h.nodup hnotin hfirst hlast ?_ ?_
      · intro x
        dsimp only
        rw [h.prev_head hlast, RsvdTraceBuffer.next_setNext, RsvdTraceBuffer.next_setPrev,
          RsvdTraceBuffer.next_setPrev, RsvdTraceBuffer.next_setNext]
      · intro x
        dsimp only
        rw [h.prev_head hlast, RsvdTraceBuffer.prev_setNext, RsvdTraceBuffer.prev_setPrev,
          RsvdTraceBuffer.prev_setPrev, RsvdTraceBuffer.prev_setNext]
        rfl
  · right
    show Placed (s.setListTail a).bufferBeginningBoundary
      ((s.setListTail a).bufferEndingBoundary + 1) _
    have hblocks : ((s.setListTail a).store a c).blocks (xs ++ [a])
        = s.blocks xs ++ [(a, getAlignedSizeOfEntry c.data.length)] := by
      unfold RsvdTraceBuffer.blocks
      rw [map_append, map_singleton, hself]
      dsimp only
      rw [hsize]
      congr 1
      exact map_congr_left fun b hb => by rw [hkeep b (hother b hb), hframe.size]
    rw [hframe.first, hframe.last, hblocks]
    exact hplaced
  · intro b hb
    show 8 ∣ b - (s.setListTail a).bufferBeginningBoundary
    rw [hframe.first]
    rcases mem_append.mp hb with hin | hin
    · exact h.aligned b hin
    · rw [mem_singleton.mp hin]
      exact hdiv
  · intro b hb
    rcases mem_append.mp hb with hin | hin
    · rw [hkeep b (hother b hin), hframe.size, hframe.data]
      exact h.sizes b hin
    · rw [mem_singleton.mp hin, hself]
      exact hsize
  · unfold RsvdTraceBuffer.content
    rw [hself]
  · intro b hb
    rw [← hframe.content b]
    unfold RsvdTraceBuffer.content
    rw [hkeep b (hother b hb)]

end Consistent

/-! ## Insertions -/

/-- The ring has two entries at most. -/
def RsvdTraceBuffer.AtMostTwo (s : RsvdTraceBuffer) : Prop :=
  s.head = 0 ∨ (s.mem (s.mem s.head).next).next = s.head

/-- The room for an entry of `need` bytes in a buffer with the entries `xs`. -/
def RsvdTraceBuffer.roomFor (s : RsvdTraceBuffer) (need : Nat) (xs : List Nat) : Nat × Nat :=
  room s.bufferBeginningBoundary (s.bufferEndingBoundary + 1) need (s.blocks xs)

/-- Entries are dropped from the old end, and only as long as the space is too
small: from `xs`, the first `k`. -/
def RsvdTraceBuffer.Dropped (s : RsvdTraceBuffer) (need : Nat) (xs : List Nat) (k : Nat) : Prop :=
  ∀ j < k, (s.roomFor need (xs.drop j)).1 < need

namespace Consistent

variable {s s' : RsvdTraceBuffer} {xs : List Nat}

theorem atMostTwo_length (h : Consistent s xs) (htwo : s.AtMostTwo) : xs.length ≤ 2 := by
  match xs, h with
  | [], _ => exact Nat.zero_le _
  | [_], _ => exact Nat.le_succ _
  | [_, _], _ => exact Nat.le_refl _
  | a :: b :: c :: ys, h =>
    have hhead : s.head = a := h.head
    have hab : (s.mem a).next = b := (h.ring.1 0 a b rfl rfl).1
    have hbc : (s.mem b).next = c := (h.ring.1 1 b c rfl rfl).1
    have hne : s.head ≠ 0 := fun hz => absurd (h.head_eq_zero.mp hz) (by simp)
    have hca : (s.mem (s.mem s.head).next).next = s.head := htwo.resolve_left hne
    rw [hhead, hab, hbc] at hca
    have hn := h.nodup
    rw [hca] at hn
    exact absurd hn (by simp)

theorem removals_eq (h : Consistent s xs) (hlen : xs.length ≤ 2) : s.removals = xs.length := by
  unfold RsvdTraceBuffer.removals
  match xs, h with
  | [], h => exact if_pos (h.head_eq_zero.mpr rfl)
  | [a], h =>
    have hhead : s.head = a := h.head
    have hne : s.head ≠ 0 := fun hz => absurd (h.head_eq_zero.mp hz) (by simp)
    have hnext : (s.mem a).next = a := (h.ring.2 a a rfl rfl).1
    rw [if_neg hne, hhead, if_pos hnext]
    rfl
  | [a, b], h =>
    have hhead : s.head = a := h.head
    have hne : s.head ≠ 0 := fun hz => absurd (h.head_eq_zero.mp hz) (by simp)
    have hnext : (s.mem a).next = b := (h.ring.1 0 a b rfl rfl).1
    have hba : b ≠ a := by
      have hn := h.nodup
      rw [nodup_cons, mem_singleton] at hn
      exact fun heq => hn.1 heq.symm
    rw [if_neg hne, hhead, hnext, if_neg hba]
    rfl
  | _ :: _ :: _ :: _, _ =>
    rw [length_cons, length_cons, length_cons] at hlen
    omega

theorem removeOldestEntry (h : Consistent s xs) (hne : xs ≠ []) (hlen : xs.length ≤ 2) :
    s.removeOldestEntry.1 = true ∧ Consistent s.removeOldestEntry.2 (xs.drop 1) := by
  match xs, h with
  | [], _ => exact absurd rfl hne
  | [a], h => exact h.remove_one
  | [a, b], h => exact h.remove_two
  | _ :: _ :: _ :: _, _ =>
    rw [length_cons, length_cons, length_cons] at hlen
    omega

/-- The outcome of the search for space: some of the oldest entries are gone,
and the new one fits. -/
structure Found (s : RsvdTraceBuffer) (need : Nat) (xs : List Nat)
    (r : Nat × Nat × RsvdTraceBuffer) (k : Nat) : Prop where
  consistent : Consistent r.2.2 (xs.drop k)
  frame : Frame s r.2.2
  dropped : s.Dropped need xs k
  space : need ≤ r.1
  fits : need ≤ (s.roomFor need (xs.drop k)).1
  place : r.2.1 = (s.roomFor need (xs.drop k)).2

theorem makeSpace_fits (h : Consistent s xs) (hs : s.Sized) (hvalid : s.isBufferValid = true)
    {need : Nat} (hneed : 8 ∣ need) (hfit : need ≤ (s.getAvailableSpace need).1) (n : Nat) :
    ∃ r, RsvdTraceBuffer.makeSpace need n s = some r ∧ Found s need xs r 0 := by
  obtain ⟨hiff, hplace⟩ := h.getAvailableSpace_eq hs hvalid hneed
  refine ⟨((s.getAvailableSpace need).1, (s.getAvailableSpace need).2, s), ?_, ?_⟩
  · cases n <;> simp only [RsvdTraceBuffer.makeSpace, if_pos hfit]
  · exact ⟨h, Frame.refl s, fun j hj => absurd hj (Nat.not_lt_zero j), hfit, hiff.mp hfit, hplace⟩

theorem makeSpace_two (n : Nat) (h : Consistent s xs) (hs : s.Sized)
    (hvalid : s.isBufferValid = true) {need : Nat} (hneed : 8 ∣ need)
    (hsize : need ≤ s.getBufferSize) (hlen : xs.length = n) (hn : n ≤ 2) :
    ∃ r k, RsvdTraceBuffer.makeSpace need n s = some r ∧ Found s need xs r k := by
  induction n generalizing s xs with
  | zero =>
    have hnil : xs = [] := length_eq_zero_iff.mp hlen
    have hfit : need ≤ (s.getAvailableSpace need).1 := by
      unfold RsvdTraceBuffer.getAvailableSpace
      rw [if_pos (h.head_eq_zero.mpr hnil)]
      exact hsize
    obtain ⟨r, hr, hfound⟩ := h.makeSpace_fits hs hvalid hneed hfit 0
    exact ⟨r, 0, hr, hfound⟩
  | succ n ih =>
    by_cases hfit : need ≤ (s.getAvailableSpace need).1
    · obtain ⟨r, hr, hfound⟩ := h.makeSpace_fits hs hvalid hneed hfit (n + 1)
      exact ⟨r, 0, hr, hfound⟩
    · have hne : xs ≠ [] := by
        rintro rfl
        exact absurd hlen (by simp)
      obtain ⟨hremoved, hrest⟩ := h.removeOldestEntry hne (by omega)
      have hframe := Frame.removeOldestEntry s
      have hsize' : need ≤ s.removeOldestEntry.2.getBufferSize := by
        unfold RsvdTraceBuffer.getBufferSize
        rw [hframe.first, hframe.last]
        exact hsize
      obtain ⟨r, k, hr, hfound⟩ := ih hrest (hframe.sized hs) (hframe.valid.trans hvalid) hsize'
        (by rw [length_drop]; omega) (by omega)
      have hroom : ∀ ys, s.removeOldestEntry.2.roomFor need ys = s.roomFor need ys := by
        intro ys
        unfold RsvdTraceBuffer.roomFor
        rw [hframe.first, hframe.last, hframe.blocks]
      have hdrop : ∀ j, (xs.drop 1).drop j = xs.drop (j + 1) := by
        intro j
        rw [drop_drop, Nat.add_comm]
      refine ⟨r, k + 1, ?_, ?_⟩
      · rw [RsvdTraceBuffer.makeSpace, if_neg hfit, if_pos hremoved]
        exact hr
      · refine ⟨by rw [← hdrop]; exact hfound.consistent, hframe.trans hfound.frame, ?_,
          hfound.space, ?_, ?_⟩
        · intro j hj
          cases j with
          | zero =>
            have hiff := (h.getAvailableSpace_eq hs hvalid hneed).1
            exact Nat.lt_of_not_le fun hle => hfit (hiff.mpr hle)
          | succ j =>
            have hless := hfound.dropped j (by omega)
            rw [hroom, hdrop] at hless
            exact hless
        · have hfits := hfound.fits
          rw [hroom, hdrop] at hfits
          exact hfits
        · have hplace := hfound.place
          rw [hroom, hdrop] at hplace
          exact hplace

end Consistent

/-- A call that goes well: the entry does not fit into the buffer at all, or its size fits the
field of 16 bits and no entry is removed from a ring of more than two. -/
def Safe (s : RsvdTraceBuffer) (l : Call × Nat) : Prop :=
  ∀ c, l.1.content = some c → s.getBufferSize < getAlignedSizeOfEntry c.data.length ∨
    c.data.length < 65536 ∧ (s.AtMostTwo ∨ getAlignedSizeOfEntry c.data.length
      ≤ (s.getAvailableSpace (getAlignedSizeOfEntry c.data.length)).1)

/-- What a call does to a ring with the entries `xs`: nothing, or its entry goes
to the end, and only as many of the oldest entries are gone as it takes. -/
inductive Outcome (s : RsvdTraceBuffer) (xs : List Nat) (l : Call × Nat) (s' : RsvdTraceBuffer) :
    Prop
  | nothing : l.2 = 0 → s' = s → Outcome s xs l s'
  | inserted {c : Content} {k : Nat} : l.1.content = some c → l.2 ≠ 0 →
      Consistent s' (xs.drop k ++ [l.2]) → s.Dropped (getAlignedSizeOfEntry c.data.length) xs k →
      s'.content l.2 = c → (∀ a ∈ xs.drop k, s'.content a = s.content a) →
      s'.Sized → Outcome s xs l s'

section Runs

variable {s s' : RsvdTraceBuffer} {xs : List Nat} {l : Call × Nat}

/-- `insertEntry` and the stores of its caller, with a content that is asked
for. -/
theorem insertContent_outcome (h : Consistent s xs) (hs : s.Sized) {c : Content}
    (hcall : l.1.content = some c) (hsafe : Safe s l) (hstep : s.insertContent c = some (l.2, s')) :
    Outcome s xs l s' := by
  unfold RsvdTraceBuffer.insertContent RsvdTraceBuffer.insertEntry at hstep
  by_cases hvalid : s.isBufferValid = true
  · rw [if_pos hvalid] at hstep
    unfold RsvdTraceBuffer.makeSpaceForEntry at hstep
    by_cases hbig : getAlignedSizeOfEntry c.data.length ≤ s.getBufferSize
    · rw [if_pos hbig] at hstep
      obtain ⟨hlen, hroom⟩ := (hsafe c hcall).resolve_left (Nat.not_lt.mpr hbig)
      obtain ⟨hdiv, hpos, _⟩ := getAlignedSizeOfEntry_spec hlen
      have hfound : ∃ r k, RsvdTraceBuffer.makeSpace (getAlignedSizeOfEntry c.data.length)
          s.removals s = some r ∧
          Consistent.Found s (getAlignedSizeOfEntry c.data.length) xs r k := by
        rcases hroom with htwo | hfit
        · have hxs := h.atMostTwo_length htwo
          exact h.makeSpace_two s.removals hs hvalid hdiv hbig (h.removals_eq hxs).symm
            (by rw [h.removals_eq hxs]; exact hxs)
        · obtain ⟨r, hr, hfound⟩ := h.makeSpace_fits hs hvalid hdiv hfit s.removals
          exact ⟨r, 0, hr, hfound⟩
      obtain ⟨⟨space, a, t⟩, k, hr, hfound⟩ := hfound
      obtain ⟨hbegin, horder, hword, hsmall⟩ := hs hvalid
      have hbefore : Placed s.bufferBeginningBoundary (s.bufferEndingBoundary + 1)
          (s.blocks (xs.drop k)) := by
        have hcons := hfound.consistent.placed
        rw [hfound.frame.first, hfound.frame.last, hfound.frame.blocks] at hcons
        rcases hcons with hnil | hplaced
        · rw [hnil]
          exact .straight (show s.bufferBeginningBoundary ≤ s.bufferEndingBoundary + 1 by omega)
        · exact hplaced
      have hplaced := hbefore.insert (by omega) hfound.fits
      have haddr : a = (s.roomFor (getAlignedSizeOfEntry c.data.length) (xs.drop k)).2 :=
        hfound.place
      have hbounds := hplaced.bounds (mem_append_right _ (mem_singleton_self _))
      have hapos : s.bufferBeginningBoundary ≤ a := by
        rw [haddr]
        exact hbounds.1
      have hspace : space ≠ 0 := by
        have hle := hfound.space
        dsimp only at hle
        omega
      have hadiv : 8 ∣ a - t.bufferBeginningBoundary := by
        rw [hfound.frame.first, haddr]
        exact hfound.consistent.room_aligned hfound.frame _
      simp only [hr, Option.bind_eq_bind, Option.bind_some, if_pos
        (And.intro hspace (show a ≠ 0 by omega)), if_pos (show a ≠ 0 by omega),
        Option.some.injEq, Prod.mk.injEq] at hstep
      obtain ⟨ha, hs'⟩ := hstep
      have hcons : Consistent t (xs.drop k) := hfound.consistent
      have hadd := hcons.add c hlen (a := a) (by omega) hadiv (by
        rw [hfound.frame.first, hfound.frame.last, hfound.frame.blocks, haddr]
        exact hplaced)
      rw [hs', ha] at hadd
      refine .inserted hcall (by omega) hadd.1 hfound.dropped hadd.2.1 ?_ ?_
      · intro b hb
        rw [hadd.2.2 b hb, hfound.frame.content]
      · rw [← hs']
        exact (hfound.frame.trans (Frame.setListTail t a)).sized hs
    · simp only [if_neg hbig, Option.bind_eq_bind, Option.bind_some] at hstep
      simp only [ne_eq, not_true_eq_false, and_self, if_false, Option.bind_some,
        Option.some.injEq, Prod.mk.injEq] at hstep
      exact .nothing hstep.1.symm hstep.2.symm
  · simp only [if_neg hvalid, Option.bind_eq_bind, Option.bind_some, ne_eq, not_true_eq_false,
      if_false, Option.some.injEq, Prod.mk.injEq] at hstep
    exact .nothing hstep.1.symm hstep.2.symm

theorem call_outcome (h : Consistent s xs) (hs : s.Sized) (hsafe : Safe s l)
    (hstep : Step s l s') : Outcome s xs l s' := by
  obtain ⟨call, a⟩ := l
  cases call with
  | insertEntry c => exact insertContent_outcome h hs rfl hsafe hstep
  | writeEntry comp d =>
    cases d with
    | none =>
      cases hstep
      exact .nothing rfl rfl
    | some d =>
      by_cases hsane : comp ≠ 0 ∧ 0 < d.length
      · have hcontent : (Call.writeEntry comp (some d)).content = some ⟨comp, 1, d⟩ := if_pos hsane
        refine insertContent_outcome h hs hcontent hsafe ?_
        have hcall : s.writeEntry comp (some d) = s.insertContent ⟨comp, 1, d⟩ := if_pos hsane
        rw [← hcall]
        exact hstep
      · have hcall : s.writeEntry comp (some d) = some (0, s) := if_neg hsane
        have hres := hcall.symm.trans hstep
        cases hres
        exact .nothing rfl rfl

end Runs

/-! ## The ring in every state of a run -/

/-- A safe step. -/
def SafeStep (s : RsvdTraceBuffer) (l : Call × Nat) (s' : RsvdTraceBuffer) : Prop :=
  Step s l s' ∧ Safe s l

/-- What holds of the ring after the calls `ls`: its entries are the last ones
inserted. -/
structure RingOk (ls : List (Call × Nat)) (s : RsvdTraceBuffer) (xs : List Nat) : Prop where
  consistent : Consistent s xs
  sized : s.Sized
  recent : xs.map s.content <:+ inserted ls

theorem RingOk.step {ls : List (Call × Nat)} {s s' : RsvdTraceBuffer} {xs : List Nat}
    {l : Call × Nat} (h : RingOk ls s xs) (hstep : SafeStep s l s') :
    ∃ xs', RingOk (ls ++ [l]) s' xs' := by
  have happend : inserted (ls ++ [l])
      = inserted ls ++ (if l.2 ≠ 0 then l.1.content.toList else []) := by
    rw [inserted, flatMap_append, flatMap_singleton]
    rfl
  cases call_outcome h.consistent h.sized hstep.2 hstep.1 with
  | nothing hzero hsame =>
    refine ⟨xs, ?_⟩
    rw [hsame]
    refine ⟨h.consistent, h.sized, ?_⟩
    rw [happend, if_neg (fun hne => hne hzero), append_nil]
    exact h.recent
  | @inserted c k hcontent hne hcons hdropped hnew hold hsized =>
    refine ⟨xs.drop k ++ [l.2], hcons, hsized, ?_⟩
    rw [happend, if_pos hne, hcontent, map_append, map_singleton, hnew,
      map_congr_left hold, map_drop]
    show (xs.map s.content).drop k ++ [c] <:+ inserted ls ++ [c]
    obtain ⟨front, hfront⟩ := (drop_suffix k (xs.map s.content)).trans h.recent
    exact ⟨front, by rw [← append_assoc, hfront]⟩

theorem RingOk.init {bufferSize addressToBuffer : Nat} (mem : Nat → Entry)
    (hsize : bufferSize < 2 ^ 32) (hword : addressToBuffer + bufferSize ≤ 2 ^ 64) :
    RingOk [] (.init bufferSize addressToBuffer mem) [] where
  consistent := ⟨rfl, by simp, Ring.nil, Or.inl rfl, by simp, by simp⟩
  sized := by
    intro hvalid
    have hroom : 8 < bufferSize ∧ 0 < addressToBuffer := of_decide_eq_true hvalid
    show 0 < addressToBuffer + 8 ∧ addressToBuffer + 8 ≤ addressToBuffer + bufferSize - 1 ∧
      addressToBuffer + bufferSize - 1 < 2 ^ 64 ∧
      addressToBuffer + bufferSize - 1 + 1 - (addressToBuffer + 8) < 2 ^ 32
    omega
  recent := suffix_refl _

/-- The reserved trace buffer: in every state of a run of safe calls, the ring
is a consistently linked list of the entries inserted last, in their order, on
disjoint ranges inside the buffer; and a further safe call adds its entry at
the end and drops old entries only while the contiguous space is too small. -/
theorem ring_of_run {bufferSize addressToBuffer : Nat} {mem : Nat → Entry}
    (hsize : bufferSize < 2 ^ 32) (hword : addressToBuffer + bufferSize ≤ 2 ^ 64)
    {ls : List (Call × Nat)} {s : RsvdTraceBuffer}
    (hrun : Run SafeStep (.init bufferSize addressToBuffer mem) ls s) :
    ∃ xs, Consistent s xs ∧ xs.map s.content <:+ inserted ls ∧
      (s.blocks xs).Pairwise (fun a b => a.1 + a.2 ≤ b.1 ∨ b.1 + b.2 ≤ a.1) ∧
      (∀ b ∈ s.blocks xs, s.bufferBeginningBoundary ≤ b.1 ∧
        b.1 + b.2 ≤ s.bufferEndingBoundary + 1) ∧
      ∀ l s', SafeStep s l s' → Outcome s xs l s' := by
  have hok : ∃ xs, RingOk ls s xs := by
    induction hrun with
    | nil => exact ⟨[], RingOk.init mem hsize hword⟩
    | snoc _ hstep ih =>
      obtain ⟨xs, hxs⟩ := ih
      exact hxs.step hstep
  obtain ⟨xs, hcons, hsized, hrecent⟩ := hok
  refine ⟨xs, hcons, hrecent, ?_, ?_, fun l s' hstep =>
    call_outcome hcons hsized hstep.2 hstep.1⟩
  · rcases hcons.placed with hnil | hplaced
    · rw [hnil]
      exact List.Pairwise.nil
    · exact hplaced.apart
  · intro b hb
    rcases hcons.placed with hnil | hplaced
    · rw [hnil] at hb
      exact absurd hb not_mem_nil
    · exact ⟨(hplaced.bounds hb).1, (hplaced.bounds hb).2.2⟩

/-! ## A lost entry -/

section Sample

instance (s : RsvdTraceBuffer) : Decidable s.AtMostTwo := by
  unfold RsvdTraceBuffer.AtMostTwo
  infer_instance

instance (s : RsvdTraceBuffer) (l : Call × Nat) : Decidable (Safe s l) :=
  decidable_of_iff (∀ c ∈ l.1.content.toList,
    s.getBufferSize < getAlignedSizeOfEntry c.data.length ∨
    c.data.length < 65536 ∧ (s.AtMostTwo ∨ getAlignedSizeOfEntry c.data.length
      ≤ (s.getAvailableSpace (getAlignedSizeOfEntry c.data.length)).1))
    (forall_congr' fun _ => by rw [Option.mem_toList])

/-- A step that is computed, when its entry is the one of the label. -/
def step? (s : RsvdTraceBuffer) (l : Call × Nat) : Option RsvdTraceBuffer :=
  match s.call l.1 with
  | some (a, s') => if a = l.2 then some s' else none
  | none => none

/-- The same for a safe step. -/
def safeStep? (s : RsvdTraceBuffer) (l : Call × Nat) : Option RsvdTraceBuffer :=
  if Safe s l then step? s l else none

theorem step?_sound (s : RsvdTraceBuffer) (l : Call × Nat) (s' : RsvdTraceBuffer)
    (h : step? s l = some s') : Step s l s' := by
  unfold step? at h
  split at h
  · rename_i a t hcall
    split at h
    · rename_i ha
      cases h
      rw [Step, hcall, ha]
    · exact absurd h (by simp)
  · exact absurd h (by simp)

theorem safeStep?_sound (s : RsvdTraceBuffer) (l : Call × Nat) (s' : RsvdTraceBuffer)
    (h : safeStep? s l = some s') : SafeStep s l s' := by
  unfold safeStep? at h
  split at h
  · rename_i hsafe
    exact ⟨step?_sound s l s' h, hsafe⟩
  · exact absurd h (by simp)

/-- A trace of a component, eight bytes long. -/
def sampleWrite (comp : Nat) : Call := .writeEntry comp (some (List.replicate 8 0))

/-- Memory that holds nothing. -/
def sampleMem : Nat → Entry := fun _ => ⟨0, 0, 0, 0, 0, []⟩

/-- A buffer for `n` entries of that size. -/
def sampleBuffer (n : Nat) : RsvdTraceBuffer := .init (8 + 40 * n) 1000 sampleMem

/-- Three traces in a buffer for two. -/
def sampleLabels : List (Call × Nat) :=
  [(sampleWrite 1, 1008), (sampleWrite 2, 1048), (sampleWrite 3, 1008)]

/-- Four traces in a buffer for three. -/
def lostLabels : List (Call × Nat) :=
  [(sampleWrite 1, 1008), (sampleWrite 2, 1048), (sampleWrite 3, 1088), (sampleWrite 4, 1088)]

end Sample

/-- The oldest of two entries makes room for a third one. -/
theorem ring_of_run_three :
    ∃ s xs, Run SafeStep (sampleBuffer 2) sampleLabels s ∧ Consistent s xs ∧
      xs.map s.content <:+ inserted sampleLabels := by
  cases hs : sampleLabels.foldlM safeStep? (sampleBuffer 2) with
  | none => exact absurd hs (by decide +kernel)
  | some s =>
    have hrun := Run.of_foldlM safeStep?_sound hs
    obtain ⟨xs, hcons, hrecent, _⟩ := ring_of_run (by decide) (by decide) hrun
    exact ⟨s, xs, hrun, hcons, hrecent⟩

/-- The fourth trace needs the room of the first one.  Its removal leaves a
ring of the second entry alone, and the fourth one goes to the place of the
third: the ring holds the second and the fourth. -/
theorem ring_lost :
    ¬ ∀ (bufferSize addressToBuffer : Nat) (mem : Nat → Entry) (ls : List (Call × Nat))
      (s : RsvdTraceBuffer), bufferSize < 2 ^ 32 → addressToBuffer + bufferSize ≤ 2 ^ 64 →
      Run Step (.init bufferSize addressToBuffer mem) ls s →
      ∃ xs, Consistent s xs ∧ xs.map s.content <:+ inserted ls := by
  intro hall
  cases hs : lostLabels.foldlM step? (sampleBuffer 3) with
  | none => exact absurd hs (by decide +kernel)
  | some s =>
    have hvalues : (lostLabels.foldlM step? (sampleBuffer 3)).map (fun s =>
        (s.head, (s.mem 1048).next, (s.mem 1088).next, [1048, 1088].map s.content))
        = some (1048, 1088, 1048, [⟨2, 1, List.replicate 8 0⟩, ⟨4, 1, List.replicate 8 0⟩]) := by
      decide +kernel
    rw [hs, Option.map_some, Option.some.injEq, Prod.mk.injEq, Prod.mk.injEq,
      Prod.mk.injEq] at hvalues
    obtain ⟨hhead, hnext, hback, hcontents⟩ := hvalues
    obtain ⟨xs, hcons, hrecent⟩ := hall _ _ _ lostLabels s (by decide) (by decide)
      (Run.of_foldlM step?_sound hs)
    have hxs : xs = [1048, 1088] := by
      match xs, hcons with
      | [], h => exact absurd (h.head.symm.trans hhead) (by decide)
      | [a], h =>
        have ha : a = 1048 := h.head.symm.trans hhead
        have hself := (h.ring.2 a a rfl rfl).1
        rw [ha] at hself
        exact absurd (hself.symm.trans hnext) (by decide)
      | a :: b :: ys, h =>
        have ha : a = 1048 := h.head.symm.trans hhead
        have hb : b = 1088 := by
          have hlink := (h.ring.1 0 a b rfl rfl).1
          rw [ha] at hlink
          exact hlink.symm.trans hnext
        cases ys with
        | nil => rw [ha, hb]
        | cons c ys =>
          have hlink := (h.ring.1 1 b c rfl rfl).1
          rw [hb] at hlink
          have hc : c = 1048 := hlink.symm.trans hback
          have hn := h.nodup
          rw [ha, hb, hc] at hn
          exact absurd hn (by simp)
    rw [hxs, hcontents] at hrecent
    exact absurd hrecent (by decide)

end Hostboot.Trace.Rsvd
