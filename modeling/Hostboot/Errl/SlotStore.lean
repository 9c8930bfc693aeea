import Mathlib
import Hostboot.Errl.PnorSlots

/-!
# What happens to a saved error log

An error log in PNOR should stay as it was saved until it is acknowledged, an
acknowledgement should touch one bit, and a save should use open slots only.

`setupPnorInfo` acknowledges logs too: on an FSP system every log that was not
acknowledged, on a BMC system those that cannot be read, and one for each log
that it sends to the BMC, by the eid.
-/

namespace Hostboot.Errl

open Hostboot.Lib ErrlManager
open Function (update update_of_ne update_self)

/-! ## The ACK bit -/

theorem and_two_pow_mul_add {k b d : Nat} (a c : Nat) (hb : b < 2 ^ k) (hd : d < 2 ^ k) :
    (2 ^ k * a + b) &&& (2 ^ k * c + d) = 2 ^ k * (a &&& c) + (b &&& d) := by
  refine Nat.eq_of_testBit_eq fun j => ?_
  rw [Nat.testBit_and, Nat.testBit_two_pow_mul_add _ hb, Nat.testBit_two_pow_mul_add _ hd,
    Nat.testBit_two_pow_mul_add _ (Nat.and_lt_two_pow _ hd)]
  split <;> rw [Nat.testBit_and]

theorem and_not_ACK_BIT {w : Nat} (hw : w < 2 ^ 32) :
    w &&& (0xFFFFFFFF - ACK_BIT) = w - w / 2 ^ 21 % 2 * 2 ^ 21 := by
  have hmask : 0xFFFFFFFF - ACK_BIT = 2 ^ 22 * (2 ^ 10 - 1) + (2 ^ 21 * 0 + (2 ^ 21 - 1)) := rfl
  have hsplit : w = 2 ^ 22 * (w / 2 ^ 22) + (2 ^ 21 * (w / 2 ^ 21 % 2) + w % 2 ^ 21) := by omega
  have hlow : 2 ^ 21 * (w / 2 ^ 21 % 2) + w % 2 ^ 21 < 2 ^ 22 := by omega
  have hand : w &&& (0xFFFFFFFF - ACK_BIT) = 2 ^ 22 * (w / 2 ^ 22) + w % 2 ^ 21 := by
    rw [hmask]
    conv_lhs => rw [hsplit]
    rw [and_two_pow_mul_add _ _ hlow (by decide),
      and_two_pow_mul_add _ _ (Nat.mod_lt _ (by decide)) (by decide), Nat.and_zero,
      Nat.and_two_pow_sub_one_eq_mod, Nat.and_two_pow_sub_one_eq_mod]
    omega
  rw [hand]
  omega

theorem isSlotACKed_iff (s : Slot) :
    s.isSlotACKed = true ↔ (s (word5Offset + 1)).toNat / 2 ^ 5 % 2 = 0 := by
  have h2 := UInt8.toNat_lt (s (word5Offset + 2))
  have h3 := UInt8.toNat_lt (s (word5Offset + 3))
  have hbit : ACK_BIT = 2 ^ 21 := rfl
  have htest : (s.get32 word5Offset).testBit 21 =
      decide ((s (word5Offset + 1)).toNat / 2 ^ 5 % 2 = 1) := by
    rw [Nat.testBit_eq_decide_div_mod_eq, Mem.get32_eq]
    refine decide_eq_decide.mpr ?_
    omega
  unfold Slot.isSlotACKed
  rw [hbit, Nat.and_two_pow, htest, beq_iff_eq]
  by_cases h : (s (word5Offset + 1)).toNat / 2 ^ 5 % 2 = 1
  · rw [decide_eq_true h]
    simp only [Bool.toNat_true]
    omega
  · rw [decide_eq_false h]
    simp only [Bool.toNat_false]
    omega

/-- Two slots that differ in the ACK bit only, which is set in the first. -/
structure AckOnly (s s' : Slot) : Prop where
  others : ∀ off, off ≠ word5Offset + 1 → s' off = s off
  wasSet : (s (word5Offset + 1)).toNat / 2 ^ 5 % 2 = 1
  cleared : (s' (word5Offset + 1)).toNat + 2 ^ 5 = (s (word5Offset + 1)).toNat

theorem setACKInFlattened_ackOnly {s : Slot} (h : s.isSlotACKed = false) :
    AckOnly s s.setACKInFlattened := by
  have h0 := UInt8.toNat_lt (s word5Offset)
  have h1 := UInt8.toNat_lt (s (word5Offset + 1))
  have h2 := UInt8.toNat_lt (s (word5Offset + 2))
  have h3 := UInt8.toNat_lt (s (word5Offset + 3))
  have hset : (s (word5Offset + 1)).toNat / 2 ^ 5 % 2 = 1 := by
    have hnot : ¬ (s (word5Offset + 1)).toNat / 2 ^ 5 % 2 = 0 := by
      rw [← isSlotACKed_iff, h]
      exact Bool.false_ne_true
    omega
  have hword := s.get32_eq word5Offset
  have hnew : s.get32 word5Offset &&& (0xFFFFFFFF - ACK_BIT) = s.get32 word5Offset - 2 ^ 21 := by
    rw [and_not_ACK_BIT (by omega)]
    omega
  obtain ⟨hb0, hb1, hb2, hb3⟩ :=
    s.put32_bytes word5Offset (s.get32 word5Offset &&& (0xFFFFFFFF - ACK_BIT))
  rw [hnew] at hb0 hb1 hb2 hb3
  unfold Slot.setACKInFlattened
  rw [hnew]
  refine { others := ?_, wasSet := hset, cleared := ?_ }
  · intro off hoff
    by_cases hout : off < word5Offset ∨ word5Offset + 4 ≤ off
    · exact Mem.SameOutside.put32 s word5Offset _ off hout
    · have hcase : off = word5Offset ∨ off = word5Offset + 2 ∨ off = word5Offset + 3 := by omega
      rcases hcase with rfl | rfl | rfl
      · rw [hb0, ← UInt8.toNat_inj, UInt8.toNat_ofNat']
        omega
      · rw [hb2, ← UInt8.toNat_inj, UInt8.toNat_ofNat']
        omega
      · rw [hb3, ← UInt8.toNat_inj, UInt8.toNat_ofNat']
        omega
  · rw [hb1, UInt8.toNat_ofNat']
    omega

/-! ## The search -/

/-- After how many slots the search is back at its start. -/
def cycle (m : ErrlManager) : Nat := if m.ivMaxErrlInPnor = 0 then 2 ^ 32 else m.ivMaxErrlInPnor

theorem cycle_pos (m : ErrlManager) : 0 < cycle m := by
  unfold cycle
  split <;> omega

variable {m m' : ErrlManager}

theorem cycle_le (hmax : m.ivMaxErrlInPnor < 2 ^ 32) : cycle m ≤ 2 ^ 32 := by
  unfold cycle
  split <;> omega

theorem nextSlot_eq {slot : Nat} (hmax : m.ivMaxErrlInPnor < 2 ^ 32) (hslot : slot < cycle m) :
    m.nextSlot slot = (slot + 1) % cycle m := by
  unfold nextSlot
  unfold cycle at hslot ⊢
  by_cases hzero : m.ivMaxErrlInPnor = 0
  · rw [if_pos hzero]
    split <;> omega
  · rw [if_neg hzero] at hslot ⊢
    have hmod : (slot + 1) % 2 ^ 32 = slot + 1 := Nat.mod_eq_of_lt (by omega)
    rw [hmod]
    split
    · rename_i hlast
      rw [hlast, Nat.mod_self]
    · exact (Nat.mod_eq_of_lt (by omega)).symm

theorem searchSlot_ne_none {initial fuel slot k : Nat} (hmax : m.ivMaxErrlInPnor < 2 ^ 32)
    (hslot : slot < cycle m) (hk : 1 ≤ k) (hfuel : k ≤ fuel) (hback : (slot + k) % cycle m = initial) :
    m.searchSlot initial fuel slot ≠ none := by
  induction fuel generalizing slot k with
  | zero => omega
  | succ fuel ih =>
    have hnext := nextSlot_eq hmax hslot
    rw [searchSlot]
    split
    · rename_i hgo
      have hne : m.nextSlot slot ≠ initial := by
        simp only [Bool.and_eq_true, bne_iff_ne] at hgo
        exact hgo.2
      have hk' : k ≠ 1 := by
        intro hone
        subst hone
        exact hne (hnext.trans hback)
      refine ih (k := k - 1) ?_ (by omega) (by omega) ?_
      · rw [hnext]
        exact Nat.mod_lt _ (cycle_pos m)
      · have hsum : slot + 1 + (k - 1) = slot + k := by omega
        rw [hnext, Nat.mod_add_mod, hsum]
        exact hback
    · exact Option.some_ne_none _

theorem searchSlot_spec {initial fuel slot i : Nat} (hmax : m.ivMaxErrlInPnor < 2 ^ 32)
    (hslot : slot < cycle m) (h : m.searchSlot initial fuel slot = some i) :
    i < cycle m ∧ (i = initial ∨ m.isOpen i = true) := by
  induction fuel generalizing slot with
  | zero => cases h
  | succ fuel ih =>
    have hlt : m.nextSlot slot < cycle m := by
      rw [nextSlot_eq hmax hslot]
      exact Nat.mod_lt _ (cycle_pos m)
    rw [searchSlot] at h
    split at h
    · exact ih hlt h
    · rename_i hstop
      simp only [Option.some.injEq] at h
      subst h
      refine ⟨hlt, ?_⟩
      by_cases hopen : m.isOpen (m.nextSlot slot) = true
      · exact .inr hopen
      · refine .inl ?_
        simp only [Bool.not_eq_true] at hopen
        rw [hopen] at hstop
        simpa using hstop

/-! ## The calls -/

/-- What a slot holds after a log was flattened into it. -/
def Image {Log : Type} (env : Env Log) (slot : Slot) : Prop :=
  ∃ log before, (env.flatten log before).2 ≠ 0 ∧ (env.flatten log before).1 = slot

/-- What holds of the cursor and of the logs that were saved. -/
structure Inv {Log : Type} (env : Env Log) (m : ErrlManager) : Prop where
  max : m.ivMaxErrlInPnor < 2 ^ 32
  cursor : m.ivPnorAddr = true → m.ivPnorOpenSlot < cycle m
  kept : ∀ i slot, m.unacked i = some slot → m.slots i = slot ∧ Image env slot

/-- A slot that `saveErrLogToPnor` may write: it is empty, or its log is
acknowledged and not one of the two reserved logs. -/
def Writable (m : ErrlManager) (i : Nat) : Prop :=
  (m.slots i).isSlotEmpty = true ∨
    ((m.slots i).isSlotACKed = true ∧ (m.slots i).readEidFromFlattened ≠ m.ivLastIplEid ∧
      (m.slots i).readEidFromFlattened ≠ m.ivFirstHbrtEid)

theorem writable_of_isOpen {i : Nat} (h : m.isOpen i = true) : Writable m i := by
  unfold isOpen isReserved at h
  unfold Writable
  simpa using h

variable {Log : Type} {env : Env Log} {bmc : Bmc}

theorem Inv.increment_ne_none (h : Inv env m) (haddr : m.ivPnorAddr = true) :
    m.incrementPnorOpenSlot ≠ none := by
  have hcursor := h.cursor haddr
  refine searchSlot_ne_none h.max hcursor (cycle_pos m) (cycle_le h.max) ?_
  rw [Nat.add_mod_right]
  exact Nat.mod_eq_of_lt hcursor

theorem Inv.save_cases (h : Inv env m) {log : Log} {rc : Bool}
    (hsave : m.saveErrLogToPnor env log = some (m', rc)) :
    m' = m ∨ ∃ i, i < cycle m ∧ Writable m i ∧ m' = saveToSlot env m log i := by
  unfold saveErrLogToPnor at hsave
  split at hsave
  · cases hsave
    exact .inl rfl
  split at hsave
  · cases hsave
    exact .inl rfl
  rename_i haddr
  split at hsave
  · cases hsave
  rename_i i hsearch
  split at hsave
  · cases hsave
    exact .inl rfl
  rename_i hmoved
  cases hsave
  obtain ⟨hlt, hstop⟩ := searchSlot_spec h.max (h.cursor (by simpa using haddr)) hsearch
  exact .inr ⟨i, hlt, writable_of_isOpen (hstop.resolve_left hmoved), rfl⟩

theorem saveToSlot_slots_of_ne {log : Log} {i j : Nat} (hne : j ≠ i) :
    (saveToSlot env m log i).slots j = m.slots j := by
  unfold saveToSlot
  dsimp only
  split
  · exact update_of_ne hne _ _
  · exact update_of_ne hne _ _

theorem Inv.unacked_of_writable (h : Inv env m) {i : Nat} (hopen : Writable m i) :
    m.unacked i = none := by
  cases hlog : m.unacked i with
  | none => rfl
  | some slot =>
    obtain ⟨hslot, image, before, hsize, himage⟩ := h.kept i slot hlog
    have hempty := env.flatten_notEmpty image before hsize
    have hack := env.flatten_unacked image before hsize
    rw [himage, ← hslot] at hempty hack
    rcases hopen with hopen | ⟨hopen, -⟩
    · rw [hempty] at hopen
      cases hopen
    · rw [hack] at hopen
      cases hopen

theorem Inv.saveToSlot (h : Inv env m) {log : Log} {i : Nat} (hlt : i < cycle m)
    (hopen : Writable m i) : Inv env (saveToSlot env m log i) := by
  have hnone := h.unacked_of_writable hopen
  unfold ErrlManager.saveToSlot
  dsimp only
  split
  · rename_i hsize
    refine { max := h.max, cursor := fun _ => hlt, kept := ?_ }
    intro j slot hlog
    by_cases hj : j = i
    · subst hj
      simp only [update_self, Option.some.injEq] at hlog ⊢
      exact ⟨hlog, log, m.slots j, hsize, hlog⟩
    · simp only [update_of_ne hj] at hlog ⊢
      exact h.kept j slot hlog
  · refine { max := h.max, cursor := h.cursor, kept := ?_ }
    intro j slot hlog
    have hj : j ≠ i := by
      intro heq
      subst heq
      have hlog' : m.unacked j = some slot := hlog
      rw [hnone] at hlog'
      cases hlog'
    simp only [update_of_ne hj]
    exact h.kept j slot hlog

theorem Inv.ackSlot (h : Inv env m) (i : Nat) : Inv env (m.ackSlot i) where
  max := h.max
  cursor := h.cursor
  kept := by
    intro j slot hlog
    unfold ErrlManager.ackSlot at hlog ⊢
    dsimp only at hlog ⊢
    by_cases hj : j = i
    · subst hj
      rw [update_self] at hlog
      cases hlog
    · rw [update_of_ne hj] at hlog ⊢
      exact h.kept j slot hlog

/-- What an acknowledgement does: nothing, or it takes the ACK bit of one
unacknowledged log with the id. -/
theorem ack_cases (m : ErrlManager) (eid : Nat) :
    m.ackErrLogInPnor eid = (m, false) ∨
      ∃ i < m.ivMaxErrlInPnor, (m.slots i).isSlotEmpty = false ∧
        (m.slots i).isSlotACKed = false ∧ (m.slots i).readEidFromFlattened = eid ∧
        m.ackErrLogInPnor eid = (m.ackSlot i, true) := by
  unfold ackErrLogInPnor
  split
  · rename_i i hfind
    have hlt : i < m.ivMaxErrlInPnor := List.mem_range.mp (List.mem_of_find?_eq_some hfind)
    have hmatch := List.find?_some hfind
    unfold matchesEid at hmatch
    simp only [Bool.and_eq_true, Bool.not_eq_true', beq_iff_eq] at hmatch
    exact .inr ⟨i, hlt, hmatch.1.1, hmatch.1.2, hmatch.2, rfl⟩
  · exact .inl rfl

theorem ack_le {eid n : Nat} (hmatch : m.matchesEid eid n = true)
    (hn : n < m.ivMaxErrlInPnor) :
    ∃ i ≤ n, m.matchesEid eid i = true ∧ m.ackErrLogInPnor eid = (m.ackSlot i, true) := by
  unfold ackErrLogInPnor
  cases hfind : (List.range m.ivMaxErrlInPnor).find? (m.matchesEid eid) with
  | none =>
    have hnot := List.find?_eq_none.mp hfind n (List.mem_range.mpr hn)
    exact absurd hmatch hnot
  | some i =>
    obtain ⟨hi, -, hfirst⟩ := List.find?_range_eq_some.mp hfind
    refine ⟨i, Nat.le_of_not_lt fun hlt => ?_, hi, rfl⟩
    have hnot := hfirst n hlt
    rw [hmatch] at hnot
    exact Bool.false_ne_true hnot

/-! ## Setting up -/

/-- A log that `setupPnorInfo` finds unacknowledged. -/
def Found (s : Slot) : Prop := s.isSlotEmpty = false ∧ s.isSlotACKed = false

/-- `setupPnorInfo` sends a log with this eid to the BMC, which takes it. -/
def SentAs (env : Env Log) (bmc : Bmc) (slots : Nat → Slot) (eid : Nat) : Prop :=
  ∃ i, Found (slots i) ∧ acksAtSetup env (slots i) = false ∧ bmc.takes i = true ∧
    (slots i).readEidFromFlattened = eid

/-- The slots before and after the loop of `setupPnorInfo`: a slot is as it
was, or its log was unacknowledged and is acknowledged now. -/
def SetupOnly (env : Env Log) (bmc : Bmc) (before after : Nat → Slot) : Prop :=
  ∀ j, after j = before j ∨
    (Found (before j) ∧ AckOnly (before j) (after j) ∧
      (acksAtSetup env (before j) = true ∨
        SentAs env bmc before (before j).readEidFromFlattened))

/-- What is known of the loop of `setupPnorInfo` before it comes to the slot
`n`. -/
structure ScanInv (env : Env Log) (bmc : Bmc) (before : Nat → Slot) (n : Nat) (r : Scan) :
    Prop where
  inv : Inv env r.manager
  addr : r.manager.ivPnorAddr = true
  visited : SetupOnly env bmc before r.manager.slots
  ahead : ∀ j, n ≤ j → r.manager.slots j = before j

theorem noteMaxId_max (r : Scan) (i id : Nat) :
    (noteMaxId r i id).manager.ivMaxErrlInPnor = r.manager.ivMaxErrlInPnor := by
  unfold noteMaxId
  split <;> rfl

theorem noteHbrtEid_max (r : Scan) (id : Nat) :
    (noteHbrtEid r id).manager.ivMaxErrlInPnor = r.manager.ivMaxErrlInPnor := by
  unfold noteHbrtEid
  split <;> rfl

namespace ScanInv

variable {before : Nat → Slot} {n : Nat} {r : Scan}

theorem noteMaxId (h : ScanInv env bmc before n r) (hn : n < r.manager.ivMaxErrlInPnor)
    (id : Nat) : ScanInv env bmc before n (noteMaxId r n id) := by
  unfold ErrlManager.noteMaxId
  split
  · refine { inv := { max := h.inv.max, cursor := fun _ => ?_, kept := h.inv.kept },
             addr := h.addr, visited := h.visited, ahead := h.ahead }
    show n < if r.manager.ivMaxErrlInPnor = 0 then _ else r.manager.ivMaxErrlInPnor
    rw [if_neg (by omega)]
    exact hn
  · exact h

theorem noteHbrtEid (h : ScanInv env bmc before n r) (id : Nat) :
    ScanInv env bmc before n (noteHbrtEid r id) := by
  unfold ErrlManager.noteHbrtEid
  split
  · exact { inv := { max := h.inv.max, cursor := h.inv.cursor, kept := h.inv.kept },
            addr := h.addr, visited := h.visited, ahead := h.ahead }
  · exact h

theorem eq_before (h : ScanInv env bmc before n r) {k : Nat}
    (hunack : (r.manager.slots k).isSlotACKed = false) : r.manager.slots k = before k := by
  rcases h.visited k with hsame | ⟨-, hack, -⟩
  · exact hsame
  · have hacked : (r.manager.slots k).isSlotACKed = true := by
      rw [isSlotACKed_iff]
      have hset := hack.wasSet
      have hcleared := hack.cleared
      omega
    rw [hunack] at hacked
    exact absurd hacked Bool.false_ne_true

/-- The log of a slot that was visited, or of the one that is, is acknowledged. -/
theorem ackSlot (h : ScanInv env bmc before n r) {k : Nat} (hk : k ≤ n)
    (hfound : Found (r.manager.slots k))
    (hwhy : acksAtSetup env (before k) = true ∨
      SentAs env bmc before (before k).readEidFromFlattened) :
    ScanInv env bmc before (n + 1) { r with manager := r.manager.ackSlot k } := by
  have hself : (r.manager.ackSlot k).slots k = (before k).setACKInFlattened := by
    rw [← h.eq_before hfound.2]
    exact update_self _ _ _
  have hother : ∀ j, j ≠ k → (r.manager.ackSlot k).slots j = r.manager.slots j :=
    fun j hj => update_of_ne hj _ _
  rw [h.eq_before hfound.2] at hfound
  refine { inv := h.inv.ackSlot k, addr := h.addr, visited := ?_, ahead := ?_ }
  · intro j
    by_cases hj : j = k
    · subst hj
      rw [hself]
      exact .inr ⟨hfound, setACKInFlattened_ackOnly hfound.2, hwhy⟩
    · rw [hother j hj]
      exact h.visited j
  · intro j hj
    rw [hother j (by omega)]
    exact h.ahead j (by omega)

theorem pass (h : ScanInv env bmc before n r) : ScanInv env bmc before (n + 1) r :=
  ⟨h.inv, h.addr, h.visited, fun j hj => h.ahead j (by omega)⟩

theorem ackUnacked (h : ScanInv env bmc before n r) (hn : n < r.manager.ivMaxErrlInPnor)
    (hempty : (before n).isSlotEmpty = false) :
    ScanInv env bmc before (n + 1) (ackUnacked env bmc r n (before n)) := by
  have hslot := h.ahead n (Nat.le_refl n)
  unfold ErrlManager.ackUnacked
  split_ifs with hacked hacks hskip henabled
  · exact h.pass
  · rw [Bool.not_eq_true] at hacked
    exact h.ackSlot (Nat.le_refl n) (by rw [hslot]; exact ⟨hempty, hacked⟩) (.inl hacks)
  · exact h.pass
  · rw [Bool.not_eq_true] at hacked hacks hskip
    unfold sendErrLogToBmc
    split_ifs with hsend
    · have htakes : bmc.takes n = true := by rw [Bmc.takes, hskip, henabled, hsend]; rfl
      have hmatch : r.manager.matchesEid (before n).readEidFromFlattened n = true := by
        rw [matchesEid, hslot, hempty, hacked, beq_self_eq_true]
        rfl
      obtain ⟨k, hk, hkmatch, hack⟩ := ack_le hmatch hn
      rw [matchesEid, Bool.and_eq_true, Bool.and_eq_true, Bool.not_eq_true', Bool.not_eq_true',
        beq_iff_eq] at hkmatch
      obtain ⟨hkfound, heid⟩ := hkmatch
      rw [h.eq_before hkfound.2] at heid
      rw [hack]
      refine h.ackSlot hk hkfound (.inr ?_)
      rw [heid]
      exact ⟨n, ⟨hempty, hacked⟩, hacks, htakes, rfl⟩
    · exact h.pass
  · exact h.pass

theorem scanSlot (h : ScanInv env bmc before n r) (hn : n < r.manager.ivMaxErrlInPnor) :
    ScanInv env bmc before (n + 1) (scanSlot env bmc r n) := by
  have hslot := h.ahead n (Nat.le_refl n)
  unfold ErrlManager.scanSlot
  rw [hslot]
  dsimp only
  split
  · exact h.pass
  · rename_i hempty
    refine ((h.noteMaxId hn _).noteHbrtEid _).ackUnacked ?_ (by simpa using hempty)
    rw [noteHbrtEid_max, noteMaxId_max]
    exact hn

end ScanInv

theorem ackErrLogInPnor_max (m : ErrlManager) (eid : Nat) :
    (m.ackErrLogInPnor eid).1.ivMaxErrlInPnor = m.ivMaxErrlInPnor := by
  unfold ackErrLogInPnor
  split <;> rfl

theorem scanSlot_max (env : Env Log) (bmc : Bmc) (r : Scan) (n : Nat) :
    (scanSlot env bmc r n).manager.ivMaxErrlInPnor = r.manager.ivMaxErrlInPnor := by
  have hack : ∀ (r : Scan) (i : Nat) (slot : Slot),
      (ackUnacked env bmc r i slot).manager.ivMaxErrlInPnor = r.manager.ivMaxErrlInPnor := by
    intro r i slot
    unfold ackUnacked sendErrLogToBmc
    split_ifs
    · rfl
    · rfl
    · rfl
    · exact ackErrLogInPnor_max _ _
    · rfl
    · rfl
  unfold scanSlot
  dsimp only
  split
  · rfl
  · rw [hack, noteHbrtEid_max, noteMaxId_max]

theorem ScanInv.foldl {before : Nat → Slot} {r : Scan} (h : ScanInv env bmc before 0 r) {n : Nat}
    (hn : n ≤ r.manager.ivMaxErrlInPnor) :
    ScanInv env bmc before n ((List.range n).foldl (ErrlManager.scanSlot env bmc) r) ∧
      ((List.range n).foldl (ErrlManager.scanSlot env bmc) r).manager.ivMaxErrlInPnor =
        r.manager.ivMaxErrlInPnor := by
  induction n with
  | zero => exact ⟨h, rfl⟩
  | succ n ih =>
    obtain ⟨hinv, hmax⟩ := ih (by omega)
    rw [List.range_succ, List.foldl_append, List.foldl_cons, List.foldl_nil]
    refine ⟨hinv.scanSlot (by omega), ?_⟩
    rw [scanSlot_max, hmax]

theorem Inv.setupStart (h : Inv env m) : Inv env (setupStart env m) where
  max := Nat.mod_lt _ (by decide)
  cursor := by
    intro _
    unfold ErrlManager.setupStart cycle
    dsimp only
    split <;> omega
  kept := h.kept

theorem Inv.scanStart (h : Inv env m) (bmc : Bmc) :
    ScanInv env bmc m.slots 0
      ⟨{ ErrlManager.setupStart env m with ivFirstHbrtEid := ERRLOG_HBRT_EID_BASE }, 0⟩ where
  inv := { max := h.setupStart.max, cursor := h.setupStart.cursor, kept := h.kept }
  addr := rfl
  visited := fun _ => .inl rfl
  ahead := fun _ _ => rfl

theorem Inv.setup (h : Inv env m) (bmc : Bmc) :
    Inv env (m.setupPnorInfo env bmc) ∧
      SetupOnly env bmc m.slots (m.setupPnorInfo env bmc).slots := by
  unfold setupPnorInfo
  split
  · exact ⟨h.setupStart, fun _ => .inl rfl⟩
  · have hscan := ((h.scanStart bmc).foldl (Nat.le_refl _)).1
    exact ⟨hscan.inv, hscan.visited⟩

/-! ## Runs -/

theorem inv_init (env : Env Log) (slots : Nat → Slot) : Inv env (ErrlManager.init slots) where
  max := Nat.two_pow_pos 32
  cursor := fun h => by cases h
  kept := fun _ _ h => by cases h

theorem Inv.reboot (h : Inv env m) (runtime : Bool) (lastIplEid : Nat) :
    Inv env (m.reboot runtime lastIplEid) where
  max := Nat.two_pow_pos 32
  cursor := fun haddr => by cases haddr
  kept := h.kept

theorem Inv.step {op : Op Log} (h : Inv env m) (hstep : Step env m op m') : Inv env m' := by
  unfold Step exec at hstep
  cases op with
  | reboot runtime lastIplEid =>
    cases hstep
    exact h.reboot runtime lastIplEid
  | setupPnorInfo bmc =>
    cases hstep
    exact (h.setup bmc).1
  | saveErrLogToPnor log =>
    obtain ⟨⟨m1, rc⟩, hsave, heq⟩ := Option.map_eq_some_iff.mp hstep
    cases heq
    rcases h.save_cases hsave with hsame | ⟨i, hlt, hopen, hwritten⟩
    · rw [hsame]
      exact h
    · rw [hwritten]
      exact h.saveToSlot hlt hopen
  | ackErrLogInPnor eid =>
    cases hstep
    rcases ack_cases m eid with hsame | ⟨i, -, -, -, -, hacked⟩
    · rw [hsame]
      exact h
    · rw [hacked]
      exact h.ackSlot i

/-- What holds of the partition in a state, and of the calls that are made
there. -/
structure Store (env : Env Log) (m : ErrlManager) : Prop where
  /-- A log that was saved and not acknowledged is still there, unmodified. -/
  kept : ∀ i slot, m.unacked i = some slot → m.slots i = slot
  /-- An acknowledgement changes the ACK bit of one log with the id, or nothing. -/
  ack : ∀ eid, (m.ackErrLogInPnor eid).1.slots = m.slots ∨
    ∃ i < m.ivMaxErrlInPnor, (m.slots i).isSlotEmpty = false ∧ (m.slots i).isSlotACKed = false ∧
      (m.slots i).readEidFromFlattened = eid ∧
      AckOnly (m.slots i) ((m.ackErrLogInPnor eid).1.slots i) ∧
      ∀ j, j ≠ i → (m.ackErrLogInPnor eid).1.slots j = m.slots j
  /-- A save returns, and writes one open slot or nothing. -/
  save : ∀ log, ∃ m' rc, m.saveErrLogToPnor env log = some (m', rc) ∧
    (m'.slots = m.slots ∨ ∃ i, (0 < m.ivMaxErrlInPnor → i < m.ivMaxErrlInPnor) ∧ Writable m i ∧
      ∀ j, j ≠ i → m'.slots j = m.slots j)
  /-- Setting up acknowledges logs, and changes nothing else. -/
  setup : ∀ bmc, SetupOnly env bmc m.slots (m.setupPnorInfo env bmc).slots

theorem Inv.save_ne_none (h : Inv env m) (log : Log) :
    m.saveErrLogToPnor env log ≠ none := by
  unfold saveErrLogToPnor
  split
  · exact Option.some_ne_none _
  split
  · exact Option.some_ne_none _
  rename_i haddr
  split
  · rename_i hsearch
    exact absurd hsearch (h.increment_ne_none (by simpa using haddr))
  split
  · exact Option.some_ne_none _
  · exact Option.some_ne_none _

theorem Inv.store (h : Inv env m) : Store env m where
  kept := fun i slot hlog => (h.kept i slot hlog).1
  ack := by
    intro eid
    rcases ack_cases m eid with hsame | ⟨i, hlt, hempty, hunack, heid, hacked⟩
    · rw [hsame]
      exact .inl rfl
    · rw [hacked]
      refine .inr ⟨i, hlt, hempty, hunack, heid, ?_, fun j hj => update_of_ne hj _ _⟩
      show AckOnly (m.slots i) (update m.slots i (m.slots i).setACKInFlattened i)
      rw [update_self]
      exact setACKInFlattened_ackOnly hunack
  save := by
    intro log
    cases hsave : m.saveErrLogToPnor env log with
    | none => exact absurd hsave (h.save_ne_none log)
    | some r =>
      refine ⟨r.1, r.2, rfl, ?_⟩
      rcases h.save_cases hsave with hsame | ⟨i, hlt, hopen, hwritten⟩
      · rw [hsame]
        exact .inl rfl
      · rw [hwritten]
        refine .inr ⟨i, fun hpos => ?_, hopen, fun j hj => saveToSlot_slots_of_ne hj⟩
        unfold cycle at hlt
        rwa [if_neg (by omega)] at hlt
  setup bmc := (h.setup bmc).2

theorem inv_of_run {slots : Nat → Slot} {ops : List (Op Log)}
    (hrun : Run (Step env) (ErrlManager.init slots) ops m) : Inv env m :=
  hrun.invariant (inv_init env slots) fun _ _ _ h hstep => h.step hstep

/-- The parts of a flattened log that the manager looks at. -/
def sampleImage (eid : Nat) : Slot :=
  ((Mem.put (fun _ => 0) 0 0x50).put32 eidOffset eid).put (word5Offset + 1) 0x20

theorem sampleImage_notEmpty (eid : Nat) : (sampleImage eid).isSlotEmpty = false := by
  have hfirst : sampleImage eid 0 = 0x50 := by
    rw [sampleImage, Mem.put_of_ne _ (by decide), Mem.SameOutside.put32 _ _ _ 0 (by decide),
      Mem.put_same]
  have h1 := UInt8.toNat_lt (sampleImage eid 1)
  have h2 := UInt8.toNat_lt (sampleImage eid 2)
  have h3 := UInt8.toNat_lt (sampleImage eid 3)
  have hword := (sampleImage eid).get32_eq 0
  have hbyte : (0x50 : UInt8).toNat = 0x50 := rfl
  rw [hfirst, hbyte] at hword
  unfold Slot.isSlotEmpty EMPTY_ERRLOG_IN_PNOR
  rw [beq_eq_false_iff_ne]
  simp only [Nat.zero_add] at hword
  omega

theorem sampleImage_unacked (eid : Nat) : (sampleImage eid).isSlotACKed = false := by
  rw [Bool.eq_false_iff, ne_eq, isSlotACKed_iff, sampleImage, Mem.put_same]
  decide

/-- A partition of two slots, with logs that are known by their eid. -/
def sampleEnv (configPldm : Bool) : Env Nat where
  configPldm := configPldm
  infoSize := 2 * PNOR_ERROR_LENGTH
  eid := id
  getSkipProcessingLog := fun _ => false
  flatten := fun eid _ => (sampleImage eid, PNOR_ERROR_LENGTH)
  unflatten := fun _ => true
  flatten_notEmpty := fun eid _ _ => sampleImage_notEmpty eid
  flatten_unacked := fun eid _ _ => sampleImage_unacked eid

/-- A partition that was never written. -/
def blankSlots : Nat → Slot := fun _ _ => 0xFF

/-- A BMC that takes the log of slot 0; the one of slot 1 is skipped. -/
def sampleBmc : Bmc where
  getSkipProcessingLog i := i == 1
  isBmcInterfaceEnabled _ := true
  sendErrLog _ := true

end Hostboot.Errl
