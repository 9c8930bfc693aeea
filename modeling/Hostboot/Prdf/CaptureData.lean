import Hostboot.Prdf.BitString

/-!
# Capture data

`CaptureData` of `src/usr/diag/prdf/common/framework/register/` is a list of the registers
that were read for an error log.  An entry has a type, and `Drop` takes the entries of one
type out.

The copy constructor and the assignment of an entry copy everything but the type.  A node
of the list is built with the copy constructor in memory from the heap, so the type of
the entry in it is what this memory held.  `Heap` is that memory: a number for each node.
The assignment of `std::remove_if` leaves the types of the places as they are.
-/

namespace Hostboot.Prdf.CaptureData

open List

/-! ## The source -/

inductive RegType where
  | PRIMARY
  | SECONDARY
  deriving DecidableEq, Repr

/-- The number of a `RegType`. -/
def RegType.value : RegType → Nat
  | .PRIMARY => 1
  | .SECONDARY => 2

inductive Place where
  | FRONT
  | BACK
  deriving DecidableEq, Repr

/-- `CaptureData::Data`, where `τ` are the handles of targets.  The type is the number in
memory. -/
@[ext]
structure Data (τ : Type) where
  chipHandle : τ
  address : UInt16
  dataByteLength : UInt16
  dataPtr : Option (List UInt8)
  registerType : Nat
  deriving DecidableEq, Repr

variable {τ : Type}

/-- The copy constructor, in memory that holds `memory` in the place of the type. -/
def Data.copy (memory : Nat) (d : Data τ) : Data τ where
  chipHandle := d.chipHandle
  address := d.address
  dataByteLength := d.dataByteLength
  dataPtr := d.dataPtr.map fun bytes => bytes.take d.dataByteLength.toNat
  registerType := memory

/-- `operator=`. -/
def Data.assign (self d : Data τ) : Data τ where
  chipHandle := d.chipHandle
  address := d.address
  dataByteLength := d.dataByteLength
  dataPtr := d.dataPtr.map fun bytes => bytes.take d.dataByteLength.toNat
  registerType := self.registerType

/-- What the memory of each node held before. -/
abbrev Heap : Type := Nat → Nat

/-- The bytes of a buffer, the leftmost bit of a byte first. -/
def bytesOf (n : Nat) (bits : List Bool) : List UInt8 :=
  (List.range n).map fun i =>
    UInt8.ofNat (((bits.drop (8 * i)).take 8).foldl (fun v bit => 2 * v + bit.toNat) 0)

/-- The part of `AddDataElement` that makes the element, none for a string of zeros. -/
def makeElement (i_trgt : τ) (i_scomId : Int) (i_bs : BitString) (i_type : RegType) :
    Option (Data τ) :=
  if i_bs.isZero then none
  else
    let sz_buf := (i_bs.length + 8 - 1) / 8
    let sz_buf := (sz_buf + 4 - 1) / 4 * 4
    -- the string at the start of the cleared buffer
    let bs := BitString.setString (BitString.buffer i_bs.length) i_bs 0
    let buf := bytesOf sz_buf (bs ++ BitString.buffer (8 * sz_buf - i_bs.length))
    some ⟨i_trgt, (BitVec.ofInt 16 i_scomId).toNat.toUInt16, sz_buf.toUInt16, some buf,
      i_type.value⟩

/-- The list, with the number of the next node. -/
structure Capture (τ : Type) where
  data : List (Data τ)
  nodes : Nat

/-- `AddDataElement`. -/
def Capture.addDataElement (heap : Heap) (c : Capture τ) (i_trgt : τ) (i_scomId : Int)
    (i_bs : BitString) (i_place : Place) (i_type : RegType) : Capture τ :=
  match makeElement i_trgt i_scomId i_bs i_type with
  | none => c
  | some element =>
    match i_place with
    | .FRONT => ⟨element.copy (heap c.nodes) :: c.data, c.nodes + 1⟩
    | .BACK => ⟨c.data ++ [element.copy (heap c.nodes)], c.nodes + 1⟩

/-- A call of `Add` with a register.  The bits are none when it cannot be read.  `Add` with a
bit string is the call with its bits and the type `PRIMARY`. -/
structure AddCall (τ : Type) where
  trgt : τ
  scomId : Int
  read : Option BitString
  place : Place
  type : RegType

/-- `Add`. -/
def Capture.add (heap : Heap) (c : Capture τ) (call : AddCall τ) : Capture τ :=
  match call.read with
  | none => c
  | some bs => c.addDataElement heap call.trgt call.scomId bs call.place call.type

/-- The loop of `std::remove_if`: the places in front of `new_last`, the place there, the
ones behind it up to `first`, and the ones from `first` on.  What it returns are the places
in front of the new end and the others. -/
def removeLoop (pred : Data τ → Bool) (done : List (Data τ)) (new_last : Data τ) :
    List (Data τ) → List (Data τ) → List (Data τ) × List (Data τ)
  | gap, [] => (done, new_last :: gap)
  | gap, first :: rest =>
    if pred first then removeLoop pred done new_last (gap ++ [first]) rest
    else
      match gap with
      | [] => removeLoop pred (done ++ [new_last.assign first]) first [] rest
      | next :: gap =>
        removeLoop pred (done ++ [new_last.assign first]) next (gap ++ [first]) rest

/-- `std::remove_if`: the search for the first match, with what it has passed, and the loop. -/
def removeIf (pred : Data τ → Bool) (passed : List (Data τ)) :
    List (Data τ) → List (Data τ) × List (Data τ)
  | [] => (passed, [])
  | d :: rest =>
    if pred d then removeLoop pred passed d [] rest else removeIf pred (passed ++ [d]) rest

/-- `prdfCompareCaptureDataType`. -/
def compareType (i_type : RegType) (d : Data τ) : Bool := d.registerType == i_type.value

/-- `Drop`: the places behind the new end are erased. -/
def Capture.drop (c : Capture τ) (i_type : RegType) : Capture τ :=
  { c with data := (removeIf (compareType i_type) [] c.data).1 }

/-! ## What is added -/

/-- An entry without its type. -/
structure Entry (τ : Type) where
  chipHandle : τ
  address : UInt16
  dataByteLength : UInt16
  dataPtr : Option (List UInt8)
  deriving DecidableEq, Repr

/-- The entry that a node holds. -/
def Data.entry (d : Data τ) : Entry τ :=
  ⟨d.chipHandle, d.address, d.dataByteLength,
    d.dataPtr.map fun bytes => bytes.take d.dataByteLength.toNat⟩

/-- The entry that a call adds, with its type. -/
def AddCall.entry (call : AddCall τ) : Option (Entry τ × RegType) :=
  match call.read with
  | none => none
  | some bs =>
    (makeElement call.trgt call.scomId bs call.type).map fun element => (element.entry, call.type)

/-- The entries after one more call. -/
def Added.add (entries : List (Entry τ × RegType)) (call : AddCall τ) : List (Entry τ × RegType) :=
  match call.entry with
  | none => entries
  | some e =>
    match call.place with
    | .FRONT => e :: entries
    | .BACK => entries ++ [e]

/-- The entries that calls add, with their types, in the order of the list. -/
def Added (calls : List (AddCall τ)) : List (Entry τ × RegType) := calls.foldl Added.add []

/-- The capture data after calls of `Add`. -/
def captured (heap : Heap) (calls : List (AddCall τ)) : Capture τ :=
  calls.foldl (Capture.add heap) ⟨[], 0⟩

/-! ## Copies -/

@[simp] theorem Data.entry_copy (memory : Nat) (d : Data τ) : (d.copy memory).entry = d.entry := by
  cases h : d.dataPtr <;> simp [Data.entry, Data.copy, h, take_take]

@[simp] theorem Data.entry_assign (self d : Data τ) : (self.assign d).entry = d.entry := by
  cases h : d.dataPtr <;> simp [Data.entry, Data.assign, h, take_take]

/-- The nodes hold the entries that were added, each with what its memory held. -/
structure Holds (heap : Heap) (c : Capture τ) (entries : List (Entry τ × RegType)) : Prop where
  entries : c.data.map Data.entry = entries.map Prod.fst
  types : ∀ d ∈ c.data, ∃ n, d.registerType = heap n

theorem Holds.add {heap : Heap} {c : Capture τ} {entries : List (Entry τ × RegType)}
    (h : Holds heap c entries) (call : AddCall τ) :
    Holds heap (c.add heap call) (Added.add entries call) := by
  unfold Capture.add Added.add AddCall.entry
  cases hread : call.read with
  | none => exact h
  | some bs =>
    dsimp only
    unfold Capture.addDataElement
    cases helement : makeElement call.trgt call.scomId bs call.type with
    | none => exact h
    | some element =>
      cases hplace : call.place with
      | FRONT =>
        refine ⟨?_, fun d hd => ?_⟩
        · simp [h.entries]
        · rcases mem_cons.mp hd with rfl | hold
          · exact ⟨c.nodes, rfl⟩
          · exact h.types d hold
      | BACK =>
        refine ⟨?_, fun d hd => ?_⟩
        · simp [h.entries]
        · rcases mem_append.mp hd with hold | hnew
          · exact h.types d hold
          · exact ⟨c.nodes, by rw [mem_singleton.mp hnew]; rfl⟩

theorem holds_captured (heap : Heap) (calls : List (AddCall τ)) :
    Holds heap (captured heap calls) (Added calls) := by
  have hfold : ∀ (calls : List (AddCall τ)) (c : Capture τ) (entries : List (Entry τ × RegType)),
      Holds heap c entries →
        Holds heap (calls.foldl (Capture.add heap) c) (calls.foldl Added.add entries) := by
    intro calls
    induction calls with
    | nil => exact fun _ _ h => h
    | cons call calls ih => exact fun c entries h => ih _ _ (h.add call)
  exact hfold calls ⟨[], 0⟩ [] ⟨rfl, nofun⟩

/-! ## `Drop` -/

theorem removeLoop_entries (pred : Data τ → Bool) (done : List (Data τ)) (new_last : Data τ)
    (gap rest : List (Data τ)) :
    (removeLoop pred done new_last gap rest).1.map Data.entry =
      done.map Data.entry ++ (rest.filter fun d => !pred d).map Data.entry := by
  induction rest generalizing done new_last gap with
  | nil => simp [removeLoop]
  | cons first rest ih =>
    by_cases hpred : pred first = true
    · have hstep : removeLoop pred done new_last gap (first :: rest)
          = removeLoop pred done new_last (gap ++ [first]) rest := by
        cases gap <;> exact if_pos hpred
      rw [hstep, ih, filter_cons_of_neg (by simp [hpred])]
    · have hstep : ∃ next gap', removeLoop pred done new_last gap (first :: rest)
          = removeLoop pred (done ++ [new_last.assign first]) next gap' rest := by
        cases gap with
        | nil => exact ⟨first, [], if_neg hpred⟩
        | cons next gap => exact ⟨next, gap ++ [first], if_neg hpred⟩
      obtain ⟨next, gap', hstep⟩ := hstep
      rw [hstep, ih, filter_cons_of_pos (by simpa using hpred), map_cons,
        map_append, map_singleton, Data.entry_assign, append_assoc,
        singleton_append]

theorem removeIf_entries (pred : Data τ → Bool) (passed l : List (Data τ)) :
    (removeIf pred passed l).1.map Data.entry =
      passed.map Data.entry ++ (l.filter fun d => !pred d).map Data.entry := by
  induction l generalizing passed with
  | nil => simp [removeIf]
  | cons d rest ih =>
    rw [removeIf]
    by_cases hpred : pred d = true
    · rw [if_pos hpred, removeLoop_entries, filter_cons_of_neg (by simp [hpred])]
    · rw [if_neg hpred, ih, filter_cons_of_pos (by simpa using hpred), map_cons,
        map_append, map_singleton, append_assoc, singleton_append]

theorem drop_entries (c : Capture τ) (t : RegType) :
    (c.drop t).data.map Data.entry =
      (c.data.filter fun d => !compareType t d).map Data.entry := by
  rw [Capture.drop, removeIf_entries]
  rfl

/-- The entries that should be left. -/
def expected (t : RegType) (calls : List (AddCall τ)) : List (Entry τ) :=
  ((Added calls).filter fun e => e.2 ≠ t).map Prod.fst

/-- Where every node's memory held the same number, all entries are dropped or none. -/
theorem drop_constant (n : Nat) (t : RegType) (calls : List (AddCall τ)) :
    ((captured (fun _ => n) calls).drop t).data.map Data.entry =
      if n = t.value then [] else (Added calls).map Prod.fst := by
  have h := holds_captured (fun _ => n) calls
  have htypes : ∀ d ∈ (captured (fun _ => n) calls).data, d.registerType = n := by
    intro d hd
    obtain ⟨k, hk⟩ := h.types d hd
    exact hk
  rw [drop_entries]
  by_cases hn : n = t.value
  · rw [if_pos hn, filter_eq_nil_iff.mpr, map_nil]
    intro d hd
    simp [compareType, htypes d hd, hn]
  · rw [if_neg hn, filter_eq_self.mpr, h.entries]
    intro d hd
    simp [compareType, htypes d hd, hn]

/-- After calls of `Add`, `Drop` leaves the entries of the other types, whatever the memory
of the nodes held, exactly when the calls added nothing. -/
theorem drop_expected_iff (t : RegType) (calls : List (AddCall τ)) :
    (∀ heap, ((captured heap calls).drop t).data.map Data.entry = expected t calls) ↔
      Added calls = [] := by
  constructor
  · intro h
    by_contra hne
    by_cases hother : ∃ e ∈ Added calls, e.2 ≠ t
    · -- every node looks like one of the type `t`
      obtain ⟨e, hmem, htype⟩ := hother
      have hdrop := h fun _ => t.value
      rw [drop_constant, if_pos rfl] at hdrop
      have hin : e.1 ∈ expected t calls :=
        mem_map_of_mem (mem_filter.mpr ⟨hmem, by simpa using htype⟩)
      rw [← hdrop] at hin
      exact absurd hin (by simp)
    · -- no node looks like one
      have hall : expected t calls = [] := by
        rw [expected, filter_eq_nil_iff.mpr, map_nil]
        intro e hmem
        simpa using not_not.mp fun htype => hother ⟨e, hmem, htype⟩
      have hdrop := h fun _ => t.value + 1
      rw [drop_constant, if_neg (Nat.succ_ne_self _), hall] at hdrop
      exact hne (map_eq_nil_iff.mp hdrop)
  · intro h heap
    have hentries := (holds_captured heap calls).entries
    rw [h, map_nil, map_eq_nil_iff] at hentries
    rw [drop_entries, hentries, expected, h]
    rfl

/-- A primary register, dropped with the secondary ones: the memory of its node held the
number of `SECONDARY`. -/
theorem drop_primary :
    let calls : List (AddCall Nat) := [⟨7, 0x10, some [true], .BACK, .PRIMARY⟩]
    ((captured (fun _ => 2) calls).drop .SECONDARY).data = [] ∧
      expected .SECONDARY calls = [⟨7, 0x10, 4, some [0x80, 0, 0, 0]⟩] := by
  decide

end Hostboot.Prdf.CaptureData
