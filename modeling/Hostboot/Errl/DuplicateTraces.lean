import Hostboot.Errl.Sections
import Hostboot.Util.Qsort
import Mathlib.Data.List.Destutter
import Mathlib.Data.List.Lex
import Mathlib.Order.Lattice.Nat

/-!
# The trace sections of an error log

A component may add its trace buffer to a log more than once.  Before the traces
are flattened, `removeDuplicateTraces` merges the trace sections of each
component into one that has every entry once, by time.

A trace section starts with `trace_buf_head_t`, and the entries stand behind it,
each a `trace_bin_entry_t` with its data and four more bytes.  The map from the
components to their entries is a list in the order of the names, which are the
texts that `strcmp` compares.  A section that is shorter than its header would be
read behind its end, and then `removeDuplicateTraces` has no result.
-/

namespace Hostboot.Errl.Pel

open Hostboot.Lib Packed

/-! ## The function -/

def ERRL_COMP_ID : UInt16 := 0x0100

def ERRL_UDT_CALLOUT : UInt8 := 0x06

def FIPS_ERRL_COMP_ID : UInt16 := 0x3100

def FIPS_ERRL_UDV_DEFAULT_VER_1 : UInt8 := 0x01

def FIPS_ERRL_UDT_HB_TRACE : UInt8 := 0x15

namespace ErrlUD

/-- Whether a section is a hardware callout. -/
def isCallout (u : ErrlUD) : Bool :=
  u.header.compId == ERRL_COMP_ID && u.header.sst == ERRL_UDT_CALLOUT

/-- Whether a section is a trace. -/
def isTrace (u : ErrlUD) : Bool :=
  u.header.compId == FIPS_ERRL_COMP_ID && u.header.sst == FIPS_ERRL_UDT_HB_TRACE

end ErrlUD

/-- The sizes of `trace_buf_head_t` and `trace_bin_entry_t`, and of a component
name. -/
def SIZEOF_TRACE_BUF_HEAD : Nat := 40
def SIZEOF_TRACE_BIN_ENTRY : Nat := 24
def TRAC_COMP_SIZE : Nat := 16

/-- A number of `n` bytes at an offset. -/
def num (offset n : Nat) (bs : Bytes) : Nat := Wire.decode ((bs.drop offset).take n)

/-- `stamp.tbh` of an entry. -/
def tbh (e : Bytes) : Nat := num 0 4 e

/-- `stamp.tbl`. -/
def tbl (e : Bytes) : Nat := num 4 4 e

/-- `head.length`. -/
def traceLength (e : Bytes) : Nat := num 12 2 e

/-- `head.hash`. -/
def traceHash (e : Bytes) : Nat := num 16 4 e

/-- `l_traceSize`: the entry, its data up to a multiple of eight, and four bytes. -/
def traceSize (e : Bytes) : Nat := SIZEOF_TRACE_BIN_ENTRY + (traceLength e + 7) / 8 * 8 + 4

/-- The loop over the entries of a section: at most as many as the header counts,
up to the first that reaches out of the section. -/
def traceEntries : Nat → Bytes → List Bytes
  | 0, _ => []
  | te_count + 1, bs =>
    if bs.length < traceSize bs then []
    else bs.take (traceSize bs) :: traceEntries te_count (bs.drop (traceSize bs))

namespace ErrlUD

/-- `hdr_len` of a trace section. -/
def hdrLen (u : ErrlUD) : Nat := num 1 1 u.data

/-- The entries of a trace section, none when the header reaches out of it. -/
def entries (u : ErrlUD) : List Bytes :=
  if u.data.length < u.hdrLen then []
  else traceEntries (num 32 4 u.data) (u.data.drop u.hdrLen)

/-- Where the component name of a trace section starts. -/
def comp (u : ErrlUD) : Bytes := u.data.drop 4

end ErrlUD

/-- The component name, as `strcmp` compares it. -/
def compName (comp : Bytes) : List Nat := (cstr comp).map UInt8.toNat

/-- The entries of a component in the map, new ones behind those that are there. -/
def addEntries (comp : Bytes) (es : List Bytes) :
    List (Bytes × List Bytes) → List (Bytes × List Bytes)
  | [] => [(comp, es)]
  | (c, l) :: map =>
    if compName comp < compName c then (comp, es) :: (c, l) :: map
    else if compName comp = compName c then (c, l ++ es) :: map
    else (c, l) :: addEntries comp es map

attribute [grind =] addEntries

/-- The first loop of `removeDuplicateTraces`. -/
def collectTraces (traces : List ErrlUD) : Option (List (Bytes × List Bytes)) :=
  traces.foldlM (fun map u =>
    if u.data.length < SIZEOF_TRACE_BUF_HEAD then none
    else some (addEntries u.comp u.entries map)) []

/-- The order that the entries are sorted by. -/
def before (a b : Bytes) : Bool :=
  decide (tbh a < tbh b) || (tbh a == tbh b && decide (tbl a < tbl b)) ||
    (tbh a == tbh b && tbl a == tbl b && decide (traceHash a < traceHash b))

/-- What `std::unique` takes for equal. -/
def same (a b : Bytes) : Bool := tbh a == tbh b && tbl a == tbl b && traceHash a == traceHash b

/-- The entries of a component, each once. -/
def uniqueEntries (es : List Bytes) : List Bytes :=
  (Util.QSort.sort before es).destutter fun a b => same a b = false

/-- The section of a component: the header, whose name is copied from the first
section of the component, and the entries. -/
def traceSection (comp : Bytes) (es : List Bytes) : ErrlUD :=
  let uniqueSize := SIZEOF_TRACE_BUF_HEAD + (es.map List.length).sum
  .new ([0x01, UInt8.ofNat SIZEOF_TRACE_BUF_HEAD, 0, 'B'.toUInt8] ++ comp.take TRAC_COMP_SIZE ++
      Wire.encode 4 uniqueSize ++ Wire.encode 4 0 ++ Wire.encode 4 uniqueSize ++
      Wire.encode 4 es.length ++ Wire.encode 4 0 ++ es.flatten)
    FIPS_ERRL_COMP_ID FIPS_ERRL_UDV_DEFAULT_VER_1 FIPS_ERRL_UDT_HB_TRACE

/-- The components of a list of trace sections with their entries, each once. -/
def traceGroups (traces : List ErrlUD) : Option (List (Bytes × List Bytes)) :=
  (collectTraces traces).map (List.map fun g => (g.1, uniqueEntries g.2))

/-- `removeDuplicateTraces`, over `iv_SectionVector`. -/
def removeDuplicateTraces (sections : List ErrlUD) : Option (List ErrlUD) := do
  let groups ← traceGroups (sections.filter ErrlUD.isTrace)
  pure (sections.filter (fun u => !u.isTrace) ++ groups.map fun g => traceSection g.1 g.2)

/-! ## What it makes of the sections -/

variable {a b e comp : Bytes} {es : List Bytes} {map : List (Bytes × List Bytes)}
  {g : Bytes × List Bytes} {traces : List ErrlUD}

theorem before_iff : before a b = true ↔
    tbh a < tbh b ∨ (tbh a = tbh b ∧ tbl a < tbl b) ∨
      (tbh a = tbh b ∧ tbl a = tbl b ∧ traceHash a < traceHash b) := by
  simp [before, or_assoc, and_assoc]

theorem before_trans {c : Bytes} (hab : before a b = true) (hbc : before b c = true) :
    before a c = true := by
  rw [before_iff] at hab hbc ⊢
  omega

instance : Trans (fun a b : Bytes => before a b = true) (fun a b => before a b = true)
    fun a b => before a b = true where
  trans := before_trans

/-- The map before its entries are sorted. -/
structure Collected (traces : List ErrlUD) (map : List (Bytes × List Bytes)) : Prop where
  components : map.Pairwise fun g g' => compName g.1 < compName g'.1
  complete : ∀ u ∈ traces, ∃ g ∈ map, compName g.1 = compName u.comp ∧ ∀ e ∈ u.entries, e ∈ g.2
  sound : ∀ g ∈ map, ∀ e ∈ g.2, ∃ u ∈ traces, compName u.comp = compName g.1 ∧ e ∈ u.entries

/-- The components after an insertion: what was there, and the new entries under
their name. -/
theorem addEntries_cases (h : g ∈ addEntries comp es map) :
    (compName g.1 = compName comp ∧ g.2 = es) ∨
      ∃ g' ∈ map, compName g'.1 = compName g.1 ∧
        (g.2 = g'.2 ∨ (compName g.1 = compName comp ∧ g.2 = g'.2 ++ es)) := by
  fun_induction addEntries comp es map with
  | case1 =>
    rw [List.mem_singleton.mp h]
    exact .inl ⟨rfl, rfl⟩
  | case2 c l map hlt =>
    rcases List.mem_cons.mp h with rfl | h
    · exact .inl ⟨rfl, rfl⟩
    · exact .inr ⟨g, h, rfl, .inl rfl⟩
  | case3 c l map hlt heq =>
    rcases List.mem_cons.mp h with rfl | h
    · exact .inr ⟨_, List.mem_cons_self, rfl, .inr ⟨heq.symm, rfl⟩⟩
    · exact .inr ⟨g, List.mem_cons_of_mem _ h, rfl, .inl rfl⟩
  | case4 c l map hlt heq ih =>
    rcases List.mem_cons.mp h with rfl | h
    · exact .inr ⟨_, List.mem_cons_self, rfl, .inl rfl⟩
    · refine (ih h).imp_right ?_
      rintro ⟨g', hg', hrest⟩
      exact ⟨g', List.mem_cons_of_mem _ hg', hrest⟩

theorem components_addEntries (h : map.Pairwise fun g g' => compName g.1 < compName g'.1) :
    (addEntries comp es map).Pairwise fun g g' => compName g.1 < compName g'.1 := by
  fun_induction addEntries comp es map with
  | case1 => exact List.pairwise_singleton _ _
  | case2 c l map hlt =>
    refine List.pairwise_cons.mpr ⟨fun g hg => ?_, h⟩
    rcases List.mem_cons.mp hg with rfl | hg
    · exact hlt
    · exact hlt.trans ((List.pairwise_cons.mp h).1 g hg)
  | case3 c l map hlt heq =>
    exact List.pairwise_cons.mpr (List.pairwise_cons.mp h)
  | case4 c l map hlt heq ih =>
    refine List.pairwise_cons.mpr ⟨fun g hg => ?_, ih (List.pairwise_cons.mp h).2⟩
    rcases addEntries_cases hg with ⟨hname, -⟩ | ⟨g', hg', hname, -⟩
    · rw [hname]
      exact lt_of_le_of_ne (not_lt.mp hlt) (Ne.symm heq)
    · rw [← hname]
      exact (List.pairwise_cons.mp h).1 g' hg'

theorem mem_addEntries (h : g ∈ addEntries comp es map) (he : e ∈ g.2) :
    (compName g.1 = compName comp ∧ e ∈ es) ∨
      ∃ g' ∈ map, compName g'.1 = compName g.1 ∧ e ∈ g'.2 := by
  rcases addEntries_cases h with ⟨hname, hes⟩ | ⟨g', hg', hname, hes | ⟨hcomp, hes⟩⟩
  · exact .inl ⟨hname, hes ▸ he⟩
  · exact .inr ⟨g', hg', hname, hes ▸ he⟩
  · rw [hes] at he
    exact (List.mem_append.mp he).symm.imp (⟨hcomp, ·⟩) (⟨g', hg', hname, ·⟩)

theorem exists_addEntries (comp : Bytes) (es : List Bytes) (map : List (Bytes × List Bytes)) :
    ∃ g ∈ addEntries comp es map, compName g.1 = compName comp ∧ ∀ e ∈ es, e ∈ g.2 := by
  fun_induction addEntries comp es map with
  | case1 => exact ⟨_, List.mem_cons_self, rfl, fun _ he => he⟩
  | case2 c l map hlt => exact ⟨_, List.mem_cons_self, rfl, fun _ he => he⟩
  | case3 c l map hlt heq =>
    exact ⟨_, List.mem_cons_self, heq.symm, fun _ he => List.mem_append_right _ he⟩
  | case4 c l map hlt heq ih =>
    obtain ⟨g, hg, hname, hes⟩ := ih
    exact ⟨g, List.mem_cons_of_mem _ hg, hname, hes⟩

theorem kept_addEntries (comp : Bytes) (es : List Bytes) (h : g ∈ map) :
    ∃ g' ∈ addEntries comp es map, compName g'.1 = compName g.1 ∧ ∀ e ∈ g.2, e ∈ g'.2 := by
  fun_induction addEntries comp es map with
  | case1 => exact absurd h List.not_mem_nil
  | case2 c l map hlt => exact ⟨g, List.mem_cons_of_mem _ h, rfl, fun _ he => he⟩
  | case3 c l map hlt heq =>
    rcases List.mem_cons.mp h with rfl | h
    · exact ⟨_, List.mem_cons_self, rfl, fun _ he => List.mem_append_left _ he⟩
    · exact ⟨g, List.mem_cons_of_mem _ h, rfl, fun _ he => he⟩
  | case4 c l map hlt heq ih =>
    rcases List.mem_cons.mp h with rfl | h
    · exact ⟨_, List.mem_cons_self, rfl, fun _ he => he⟩
    · obtain ⟨g', hg', hname, hes⟩ := ih h
      exact ⟨g', List.mem_cons_of_mem _ hg', hname, hes⟩

theorem Collected.add (h : Collected traces map) (u : ErrlUD) :
    Collected (traces ++ [u]) (addEntries u.comp u.entries map) where
  components := components_addEntries h.components
  complete v hv := by
    rcases List.mem_append.mp hv with hv | hv
    · obtain ⟨g, hg, hname, hes⟩ := h.complete v hv
      obtain ⟨g', hg', hname', hes'⟩ := kept_addEntries u.comp u.entries hg
      exact ⟨g', hg', hname'.trans hname, fun e he => hes' e (hes e he)⟩
    · rw [List.mem_singleton.mp hv]
      exact exists_addEntries u.comp u.entries map
  sound g hg e he := by
    rcases mem_addEntries hg he with ⟨hname, hes⟩ | ⟨g', hg', hname, he'⟩
    · exact ⟨u, List.mem_append_right _ List.mem_cons_self, hname.symm, hes⟩
    · obtain ⟨v, hv, hvname, hev⟩ := h.sound g' hg' e he'
      exact ⟨v, List.mem_append_left _ hv, hvname.trans hname, hev⟩

theorem length_traceGroups {groups : List (Bytes × List Bytes)}
    (h : traceGroups traces = some groups) : groups.length ≤ traces.length := by
  obtain ⟨map, hmap, rfl⟩ := Option.map_eq_some_iff.mp h
  have hadd : ∀ (comp : Bytes) (es : List Bytes) (map : List (Bytes × List Bytes)),
      (addEntries comp es map).length ≤ map.length + 1 := by
    intro comp es map
    fun_induction addEntries comp es map with
    | case1 => exact Nat.le_refl _
    | case2 => exact Nat.le_refl _
    | case3 => exact Nat.le_succ _
    | case4 c l map hlt heq ih => exact Nat.succ_le_succ ih
  have hfold : ∀ (traces : List ErrlUD) (start map : List (Bytes × List Bytes)),
      traces.foldlM (fun map u =>
        if u.data.length < SIZEOF_TRACE_BUF_HEAD then none
        else some (addEntries u.comp u.entries map)) start = some map →
      map.length ≤ start.length + traces.length := by
    intro traces
    induction traces with
    | nil =>
      intro start map hmap
      cases hmap
      exact Nat.le_refl _
    | cons u traces ih =>
      intro start map hmap
      rw [List.foldlM_cons] at hmap
      by_cases hshort : u.data.length < SIZEOF_TRACE_BUF_HEAD
      · rw [if_pos hshort] at hmap
        exact absurd hmap (by simp)
      · rw [if_neg hshort] at hmap
        have hrest := ih _ map hmap
        have hlen := hadd u.comp u.entries start
        rw [List.length_cons]
        omega
  have hlen := hfold traces [] map hmap
  rw [List.length_map]
  simpa using hlen

end Hostboot.Errl.Pel
