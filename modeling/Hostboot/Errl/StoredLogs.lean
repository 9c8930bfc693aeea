import Hostboot.Errl.Flatten
import Hostboot.Errl.SlotStore

/-!
# The logs in the slots

`SlotStore` knows of a flattened log only that its slot is not empty and its ACK
bit set.  Here the logs are entries, which `ErrlEntry.flatten` writes into the
4 KB of a slot.  What it writes is as `SlotStore` takes it (`entryEnv`), and a
log that was saved and not acknowledged can be read from its slot in every state
(`unflatten_of_run`).
-/

namespace Hostboot.Errl

open Hostboot.Lib Pel

variable {stack : Nat → UInt8} {e e0 : ErrlEntry} {slot : Slot} {r : Flattened}

theorem holds_flatten (h : e.Ok)
    (hr : e.flatten stack slot 0 PNOR_ERROR_LENGTH true = some r) (hpos : 0 < r.size) :
    r.mem.Holds 2 (Packed.u16 48) ∧ r.mem.Holds word5Offset (Packed.u32 e.src.psrc.word5) := by
  obtain ⟨groups, hout⟩ := ErrlEntry.flatten_spec stack h hr hpos
  have hlog := hout.holds
  rw [ErrlEntry.logBytes, ErrlEntry.fixedBytes] at hlog
  simp only [List.append_assoc, Mem.holds_append, ErrlPrvt.length_bytes, ErrlUH.length_bytes] at hlog
  obtain ⟨hprvt, -, hsrc, -⟩ := hlog
  rw [ErrlPrvt.bytes, ErrlSctnHdr.bytes] at hprvt
  rw [ErrlSrc.bytes, PelSrcSection.bytes] at hsrc
  simp only [List.append_assoc, Mem.holds_append] at hprvt hsrc
  have hslen : (e.setSctns (UInt8.ofNat (NON_UD_SECTION_CNT +
      (e.written groups PNOR_ERROR_LENGTH).length))).prvt.header.slen = 48 := h.prvt
  rw [hslen] at hprvt
  exact ⟨hprvt.2.1, hsrc.2.2.2.2.2.2.2.2.2.2.2.2.1⟩

theorem flatten_notEmpty (h : e.Ok)
    (hr : e.flatten stack slot 0 PNOR_ERROR_LENGTH true = some r) (hpos : 0 < r.size) :
    Slot.isSlotEmpty r.mem = false := by
  have hbyte : r.mem 2 = 0 := (holds_flatten h hr hpos).1.byte (by decide : 0 < 2)
  have h0 := UInt8.toNat_lt (r.mem 0)
  have h1 := UInt8.toNat_lt (r.mem 1)
  have h3 := UInt8.toNat_lt (r.mem 3)
  have hword := r.mem.get32_eq 0
  rw [Nat.zero_add, Nat.zero_add, Nat.zero_add, hbyte] at hword
  unfold Slot.isSlotEmpty EMPTY_ERRLOG_IN_PNOR
  rw [beq_eq_false_iff_ne, hword]
  show _ + 0 * 256 + _ ≠ _
  omega

theorem flatten_unacked (h : e.Ok)
    (hr : e.flatten stack slot 0 PNOR_ERROR_LENGTH true = some r) (hpos : 0 < r.size) :
    Slot.isSlotACKed r.mem = false := by
  have hbyte : (r.mem (word5Offset + 1)).toNat / 2 ^ 5 % 2 = 1 := by
    rw [(holds_flatten h hr hpos).2.byte (by decide : 1 < 4)]
    show ((Packed.u32 ((if e.src.deconfig then DECONFIG_BIT else 0) |||
      (if e.src.gard then GARD_BIT else 0) ||| Pel.ACK_BIT))[1]).toNat / 2 ^ 5 % 2 = 1
    cases e.src.deconfig <;> cases e.src.gard <;> decide
  rw [Bool.eq_false_iff, ne_eq, isSlotACKed_iff, hbyte]
  decide

/-- The environment of the store when its logs are entries.  A log with a trace
that cannot be merged has no flatten. -/
def entryEnv (stack : Nat → UInt8) (configPldm : Bool) (infoSize : Nat) (skip : ErrlEntry → Bool)
    (e0 : ErrlEntry) : Env { e : ErrlEntry // e.Ok } where
  configPldm := configPldm
  infoSize := infoSize
  eid e := e.1.prvt.eid.toNat
  getSkipProcessingLog e := skip e.1
  flatten e slot :=
    match e.1.flatten stack slot 0 PNOR_ERROR_LENGTH true with
    | some r => (r.mem, r.size)
    | none => (slot, 0)
  unflatten slot :=
    (e0.unflatten (slot.read 0 PNOR_ERROR_LENGTH) PNOR_ERROR_LENGTH).any fun r => r.1 == 0
  flatten_notEmpty e slot hsize := by
    split at hsize
    · rename_i r hr
      exact flatten_notEmpty e.2 hr (Nat.pos_of_ne_zero hsize)
    · exact absurd rfl hsize
  flatten_unacked e slot hsize := by
    split at hsize
    · rename_i r hr
      exact flatten_unacked e.2 hr (Nat.pos_of_ne_zero hsize)
    · exact absurd rfl hsize

/-- A slot that a log was flattened into is read back, with the bytes behind
the log. -/
theorem unflatten_image (h : e.Ok) (hfresh : e0.Fresh)
    (hr : e.flatten stack slot 0 PNOR_ERROR_LENGTH true = some r) (hpos : 0 < r.size) :
    ∃ groups e', e0.unflatten (r.mem.read 0 PNOR_ERROR_LENGTH) PNOR_ERROR_LENGTH = some (0, e') ∧
      e.ReadBack (e.written groups PNOR_ERROR_LENGTH) e' := by
  obtain ⟨groups, hout⟩ := ErrlEntry.flatten_spec stack h hr hpos
  have hfit : e.LengthsFit PNOR_ERROR_LENGTH := fun _ _ u _ hle => by
    rw [PNOR_ERROR_LENGTH] at hle
    omega
  have hsize := hout.size_eq ▸ hout.size_le
  obtain ⟨e', hread, hback⟩ := ErrlEntry.unflatten_spec stack h hfresh
    (length_fitting_le _ _ _) (ErrlEntry.written_ok h hfit hout.merged) hsize
    (r.mem.read r.size (PNOR_ERROR_LENGTH - r.size))
  refine ⟨groups, e', ?_, hback⟩
  have hlog : r.mem.read 0 PNOR_ERROR_LENGTH = e.logBytes stack (e.written groups PNOR_ERROR_LENGTH)
      ++ r.mem.read r.size (PNOR_ERROR_LENGTH - r.size) := by
    have hsplit : PNOR_ERROR_LENGTH = r.size + (PNOR_ERROR_LENGTH - r.size) :=
      (Nat.add_sub_of_le hout.size_le).symm
    conv_lhs => rw [hsplit]
    rw [Mem.read_add, Nat.zero_add]
    congr 1
    rw [hout.size_eq]
    exact hout.holds
  rw [hlog]
  exact hread

/-- In every run a log that was saved and not acknowledged is read back from its
slot: it is an entry that was saved, with the sections that were written. -/
theorem unflatten_of_run {configPldm : Bool} {infoSize : Nat} {skip : ErrlEntry → Bool}
    {slots : Nat → Slot} {ops : List (Op { e : ErrlEntry // e.Ok })} {m : ErrlManager}
    (hfresh : e0.Fresh)
    (hrun : Run (Step (entryEnv stack configPldm infoSize skip e0)) (.init slots) ops m)
    {i : Nat} (hlog : m.unacked i = some slot) :
    ∃ (e : ErrlEntry) (groups : List (Bytes × List Bytes)) (e' : ErrlEntry), e.Ok ∧
      e0.unflatten ((m.slots i).read 0 PNOR_ERROR_LENGTH) PNOR_ERROR_LENGTH = some (0, e') ∧
      e.ReadBack (e.written groups PNOR_ERROR_LENGTH) e' := by
  obtain ⟨hslot, log, before, hsize, himage⟩ := (inv_of_run hrun).kept i slot hlog
  simp only [entryEnv] at hsize himage
  split at hsize
  · rename_i r hr
    rw [hr] at himage
    obtain ⟨groups, e', hread, hback⟩ :=
      unflatten_image log.2 hfresh hr (Nat.pos_of_ne_zero hsize)
    rw [hslot, ← himage]
    exact ⟨log.1, groups, e', log.2, hread, hback⟩
  · exact absurd rfl hsize

end Hostboot.Errl
