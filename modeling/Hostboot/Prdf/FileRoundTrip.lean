import Hostboot.Prdf.RoundTrip

/-!
# The round trip of the rule file

`roundTrip_iff` is the result for whole files: every register, expression,
group and action class is read back from its own bytes, and `LoadChip` reads
the file back as a whole, exactly when every expression fits and every count
fits the 16 bits that the file has for it.

The registers come first, with the flags that say which of their lists stand
in the file; then the groups and action classes; then the file.
-/

namespace Hostboot.Prdf

open Lib Wire Reader List

/-! ## Counted lists -/

theorem reads_counted {α β : Type} {p : Reader β} (out : α → Bytes) (load : α → β) {as : List α}
    (hlen : as.length < 65536) (h : ∀ a ∈ as, Reads p (out a) (load a)) :
    Reads (counted p) (out16 (UInt16.ofNat as.length) ++ as.flatMap out) (as.map load) := by
  have hcount : (UInt16.ofNat as.length).toNat = as.length := by
    rw [UInt16.toNat_ofNat']
    exact Nat.mod_eq_of_lt hlen
  refine Reads.bind (reads_16 _) ?_
  rw [hcount]
  exact Reads.times out load as h

variable {bs rest : Bytes} {flags flag : UInt32} {e : Expr}

theorem length_of_counted {α : Type} {p : Reader α} {as : List α}
    (h : counted p bs = some (as, rest)) : as.length < 65536 := by
  obtain ⟨n, bs1, _, htimes⟩ := of_bind h
  rw [length_of_times htimes]
  exact n.toNat_lt

theorem length_of_flagged {α : Type} {p : Reader α} {as : List α}
    (h : flagged flags flag p bs = some (as, rest)) : as.length < 65536 := by
  by_cases hflag : flags &&& flag ≠ 0
  · have hopt : flagged flags flag p = counted p := if_pos hflag
    rw [hopt] at h
    exact length_of_counted h
  · have hopt : flagged flags flag p = pure [] := if_neg hflag
    rw [hopt] at h
    rw [of_pure h]
    exact Nat.zero_lt_succ _

theorem forall_of_flagged {α : Type} {p : Reader α} {P : α → Prop}
    (hp : ∀ bs a rest, p bs = some (a, rest) → P a) {as : List α}
    (h : flagged flags flag p bs = some (as, rest)) : ∀ a ∈ as, P a := by
  by_cases hflag : flags &&& flag ≠ 0
  · have hopt : flagged flags flag p = counted p := if_pos hflag
    rw [hopt] at h
    obtain ⟨n, bs1, _, htimes⟩ := of_bind h
    exact forall_of_times hp htimes
  · have hopt : flagged flags flag p = pure [] := if_neg hflag
    rw [hopt] at h
    rw [of_pure h]
    exact fun a ha => absurd ha not_mem_nil

/-! ## Registers -/

theorem reads_reset (r : ResetOrMaskStruct) : Reads readReset r.output r := by
  show Reads readReset ([r.type] ++ (out64 r.addrR ++ out64 r.addrW)) r
  refine Reads.bind (Reads.byte _) ?_
  refine Reads.bind (reads_64 _) ?_
  exact (reads_64 _).bind_nil (Reads.pure _)

/-- A capture statement whose function name fits the buffer. -/
def CaptureReqStruct.Fits (c : CaptureReqStruct) : Prop :=
  c.type = .func → (unquote c.str).length < 100

theorem unquote_token {s : Str} (h : Expr.StringToken s) : 0 ∉ unquote s := by
  obtain ⟨text, htoken, hzero⟩ := h
  have htext : unquote s = text := by
    rw [unquote, htoken]
    simp
  rw [htext]
  exact hzero

theorem reads_capture {c : CaptureReqStruct} (hb : c.Built) (hf : c.Fits) :
    Reads readCapture c.output c.loaded := by
  obtain ⟨kind, data0, data1, str⟩ := c
  have hone : ∀ n : UInt32, Reads (read32.times 1) (out32 n) [n] := fun n =>
    (reads_32 n).bind_nil (Reads.pure [n])
  have hplain : ∀ {t : CaptureType} {bs : Bytes} {data : List UInt32}, t ≠ .func →
      Reads (read32.times (captureWords t.toChar)) bs data →
      Reads readCapture (t.toChar :: bs) ⟨t.toChar, data, none⟩ := by
    intro t bs data ht hdata
    have hchar : ¬ t.toChar = CaptureType.func.toChar := by
      cases t <;> first | decide | exact absurd rfl ht
    show Reads readCapture ([t.toChar] ++ bs) _
    refine Reads.bind (Reads.byte _) ?_
    refine Reads.bind_nil hdata ?_
    exact (Reads.optional_neg _ hchar none).bind_nil (Reads.pure _)
  cases kind with
  | groupid => exact hplain (by simp) (hone data0)
  | type => exact hplain (by simp) (hone data0)
  | nonzero => exact hplain (by simp) (hone _)
  | conn =>
    refine hplain (by simp) ?_
    exact (reads_32 data0).bind ((hone data1).bind_nil (Reads.pure _))
  | func =>
    have hstring := reads_string (unquote_token (hb (.inl rfl))) (hf rfl)
    show Reads readCapture ([CaptureType.func.toChar] ++ ([] ++ cstr (unquote str))) _
    refine Reads.bind (Reads.byte _) ?_
    refine Reads.bind (Reads.pure []) ?_
    exact ((hstring.map some).optional_pos rfl).bind_nil (Reads.pure _)

theorem length_of_readCapture {c : CaptureInfoStruct} (h : readCapture bs = some (c, rest)) :
    ∀ s ∈ c.func, s.length < 100 := by
  obtain ⟨op, bs1, _, h1⟩ := of_bind h
  obtain ⟨data, bs2, _, h2⟩ := of_bind h1
  obtain ⟨func, bs3, hfunc, h3⟩ := of_bind h2
  rw [of_pure h3]
  intro s hs
  by_cases hop : op = CaptureType.func.toChar
  · have hopt : optional (op = CaptureType.func.toChar) (some <$> readString) none
        = some <$> readString := if_pos hop
    rw [hopt] at hfunc
    have hbind : (readString >>= fun s => pure (some s)) bs2 = some (func, bs3) := hfunc
    obtain ⟨s', bs4, hstring, hsome⟩ := of_bind hbind
    have hs' : func = some s' := of_pure hsome
    have hs'' : some s' = some s := hs'.symm.trans hs
    cases hs''
    exact length_of_readString hstring
  · have hopt : optional (op = CaptureType.func.toChar) (some <$> readString) none
        = pure none := if_neg hop
    rw [hopt] at hfunc
    have hnone : func = none := of_pure hfunc
    have hs'' : none = some s := hnone.symm.trans hs
    exact absurd hs'' (by simp)

theorem flag_of_or (x f : UInt32) : (x ||| f) &&& f = f := by
  apply UInt32.eq_of_toBitVec_eq
  ext i hi
  simp only [UInt32.toBitVec_and, UInt32.toBitVec_or, BitVec.getElem_and, BitVec.getElem_or]
  cases x.toBitVec[i] <;> cases f.toBitVec[i] <;> rfl

theorem flag_or {x f : UInt32} (g : UInt32) (h : x &&& f ≠ 0) : (x ||| g) &&& f ≠ 0 := by
  intro h0
  apply h
  apply UInt32.eq_of_toBitVec_eq
  ext i hi
  have hbit := congrArg (fun y : UInt32 => y.toBitVec[i]) h0
  simp only [UInt32.toBitVec_and, UInt32.toBitVec_or, BitVec.getElem_and, BitVec.getElem_or] at hbit ⊢
  have hzero : (0 : UInt32).toBitVec[i] = false := BitVec.getElem_zero hi
  rw [hzero] at hbit ⊢
  cases hx : x.toBitVec[i] with
  | false => rfl
  | true =>
    rw [hx] at hbit
    simpa using hbit

section

variable {c : Prop} [Decidable c] {x f : UInt32}

theorem flag_ite (g : UInt32) (h : x &&& f ≠ 0) : (if c then x ||| g else x) &&& f ≠ 0 := by
  split
  · exact flag_or g h
  · exact h

theorem flag_ite_self (hc : c) (hf : f ≠ 0) : (if c then x ||| f else x) &&& f ≠ 0 := by
  rw [if_pos hc, flag_of_or]
  exact hf

end

namespace Register

variable {r : Register}

theorem flags_resets (h : r.cvResets ≠ []) : r.flags &&& PRDR_REGISTER_RESETS ≠ 0 := by
  have hlen : r.cvResets.length ≠ 0 := fun h0 => h (length_eq_zero_iff.mp h0)
  exact flag_ite _ (flag_ite _ (flag_ite _ (flag_ite_self hlen (by decide))))

theorem flags_masks (h : r.cvMasks ≠ []) : r.flags &&& PRDR_REGISTER_MASKS ≠ 0 := by
  have hlen : r.cvMasks.length ≠ 0 := fun h0 => h (length_eq_zero_iff.mp h0)
  exact flag_ite _ (flag_ite _ (flag_ite_self hlen (by decide)))

theorem flags_captures (h : r.cvCaptures ≠ []) : r.flags &&& PRDR_REGISTER_CAPTURE ≠ 0 := by
  have hlen : r.cvCaptures.length ≠ 0 := fun h0 => h (length_eq_zero_iff.mp h0)
  exact flag_ite _ (flag_ite_self hlen (by decide))

/-- The register's lists fit their counts, and its functions their buffer. -/
structure Fits (r : Register) : Prop where
  resets : r.cvResets.length < 65536
  masks : r.cvMasks.length < 65536
  captures : r.cvCaptures.length < 65536
  functions : ∀ c ∈ r.cvCaptures, c.Fits

end Register

theorem reads_flagged {α β : Type} {p : Reader β} (out : α → Bytes) (load : α → β) {as : List α}
    (hflag : as ≠ [] → flags &&& flag ≠ 0) (hlen : as.length < 65536)
    (h : ∀ a ∈ as, Reads p (out a) (load a)) :
    Reads (flagged flags flag p) (Register.outputList flags flag out as) (as.map load) := by
  rw [Register.outputList]
  by_cases hset : flags &&& flag ≠ 0
  · rw [if_pos hset]
    exact (reads_counted out load hlen h).optional_pos hset
  · have hnil : as = [] := by
      by_contra hne
      exact hset (hflag hne)
    rw [if_neg hset, hnil]
    exact Reads.optional_neg _ hset []

/-- A register that fits is read back, with the chip's SCOM length where it has
none of its own. -/
theorem reads_register {r : Register} (scomLen : UInt16) (hb : ∀ c ∈ r.cvCaptures, c.Built)
    (hf : r.Fits) : Reads (readRegister scomLen) r.output (r.loaded scomLen) := by
  have hlen : Reads (optional (r.flags &&& PRDR_REGISTER_SCOMLEN ≠ 0) read16 scomLen)
      (if r.flags &&& PRDR_REGISTER_SCOMLEN ≠ 0 then out16 r.cvScomlen else [])
      (r.loaded scomLen).cvScomLen := by
    by_cases hset : r.flags &&& PRDR_REGISTER_SCOMLEN ≠ 0
    · rw [Register.loaded, if_pos hset, if_pos hset]
      exact (reads_16 _).optional_pos hset
    · rw [Register.loaded, if_neg hset, if_neg hset]
      exact Reads.optional_neg _ hset scomLen
  have hresets : Reads (flagged r.flags PRDR_REGISTER_RESETS readReset)
      (Register.outputList r.flags PRDR_REGISTER_RESETS ResetOrMaskStruct.output r.cvResets)
      (r.cvResets.map id) :=
    reads_flagged _ id Register.flags_resets hf.resets fun a _ => reads_reset a
  have hmasks : Reads (flagged r.flags PRDR_REGISTER_MASKS readReset)
      (Register.outputList r.flags PRDR_REGISTER_MASKS ResetOrMaskStruct.output r.cvMasks)
      (r.cvMasks.map id) :=
    reads_flagged _ id Register.flags_masks hf.masks fun a _ => reads_reset a
  have hcaptures : Reads (flagged r.flags PRDR_REGISTER_CAPTURE readCapture)
      (Register.outputList r.flags PRDR_REGISTER_CAPTURE CaptureReqStruct.output r.cvCaptures)
      (r.cvCaptures.map CaptureReqStruct.loaded) :=
    reads_flagged _ _ Register.flags_captures hf.captures
      fun a ha => reads_capture (hb a ha) (hf.functions a ha)
  rw [map_id] at hresets hmasks
  rw [Register.output]
  simp only [append_assoc]
  refine Reads.bind (reads_16 _) ?_
  refine Reads.bind (reads_32 _) ?_
  refine Reads.bind (reads_64 _) ?_
  refine Reads.bind hlen ?_
  refine Reads.bind hresets ?_
  refine Reads.bind hmasks ?_
  exact hcaptures.bind_nil (Reads.pure _)

theorem fits_of_readRegister {scomLen : UInt16} {l : LoadedRegister}
    (h : readRegister scomLen bs = some (l, rest)) :
    l.cvResets.length < 65536 ∧ l.cvMasks.length < 65536 ∧ l.cvCaptures.length < 65536 ∧
      ∀ c ∈ l.cvCaptures, ∀ s ∈ c.func, s.length < 100 := by
  obtain ⟨name, bs1, _, h1⟩ := of_bind h
  obtain ⟨flags, bs2, _, h2⟩ := of_bind h1
  obtain ⟨addr, bs3, _, h3⟩ := of_bind h2
  obtain ⟨len, bs4, _, h4⟩ := of_bind h3
  obtain ⟨resets, bs5, hresets, h5⟩ := of_bind h4
  obtain ⟨masks, bs6, hmasks, h6⟩ := of_bind h5
  obtain ⟨captures, bs7, hcaptures, h7⟩ := of_bind h6
  rw [of_pure h7]
  refine ⟨length_of_flagged hresets, length_of_flagged hmasks, length_of_flagged hcaptures, ?_⟩
  exact forall_of_flagged (fun _ _ _ => length_of_readCapture) hcaptures

theorem Register.reads_iff {r : Register} (scomLen : UInt16) (hb : ∀ c ∈ r.cvCaptures, c.Built) :
    Reads (readRegister scomLen) r.output (r.loaded scomLen) ↔ r.Fits := by
  constructor
  · intro h
    obtain ⟨hresets, hmasks, hcaptures, hfunc⟩ := fits_of_readRegister (h [])
    have hlen : (r.loaded scomLen).cvCaptures.length = r.cvCaptures.length := length_map _
    refine ⟨hresets, hmasks, hlen ▸ hcaptures, ?_⟩
    intro c hc htype
    have hmem : c.loaded ∈ (r.loaded scomLen).cvCaptures := mem_map_of_mem hc
    refine hfunc c.loaded hmem _ ?_
    rw [CaptureReqStruct.loaded, htype]
    rfl
  · exact reads_register scomLen hb

/-! ## Groups and action classes -/

/-- A node without nodes below it is read back whatever room there is. -/
theorem reads_leaf {op : ExprOps} {v : Value}
    (h : ∀ n, Reads (readBody (readExpr n) op.toChar) bs v) :
    Reads ReadExpr (op.toChar :: bs) v := fun rest => h (bs ++ rest).length rest

/-- The expressions of a line of a bit group that `ReadExpr` reads: the bits of
a rule. -/
def Expr.lineParts : Expr → List Expr
  | .rule _ bits _ => bits.parts
  | _ => []

/-- The bits of a line fit. -/
def Expr.LineFits (e : Expr) : Prop := ∀ s ∈ e.lineParts, s.FitsHere

/-- Every part of the bits of a line is read back. -/
def Expr.LineRoundTrips (env : Names) (e : Expr) : Prop :=
  ∀ s ∈ e.lineParts, Reads ReadExpr (s.output env) (s.tree env)

theorem Expr.lineRoundTrips_iff {env : Names} (hb : e.GroupLine env) :
    e.LineRoundTrips env ↔ e.LineFits := by
  cases e with
  | rule rulename bits actionname => exact roundTrips_iff hb.1
  | _ => exact ⟨fun _ s hs => absurd hs not_mem_nil, fun _ s hs => absurd hs not_mem_nil⟩

theorem reads_reference {env : Names} {name : Str} (h : (Expr.ref name).BuiltHere env) :
    Reads ReadExpr ((Expr.ref name).output env) ((Expr.ref name).tree env) := by
  refine Expr.reads_ReadExpr ⟨by simp, ?_⟩ ?_
  · intro s hs
    rw [mem_singleton.mp hs]
    exact h
  · intro s hs
    rw [mem_singleton.mp hs]
    exact trivial

theorem reads_line {env : Names} (hb : e.GroupLine env) (hf : e.LineFits) :
    Reads readLine (e.output env) (e.tree env) := by
  cases e with
  | rule rulename bits actionname =>
    have hhead : Reads ReadExpr (ExprOps.refRule.toChar :: out16 (env.refId rulename))
        (.node ExprOps.refRule.toChar [.i (env.refId rulename).toUInt32]) :=
      reads_leaf fun n => reads_short _ (.inl rfl)
    have hbits := Expr.reads_ReadExpr hb.1 hf
    have haction : Reads ReadExpr ((Expr.ref actionname).output env)
        ((Expr.ref actionname).tree env) :=
      reads_reference (hb.2.elim (fun h => .inr (.inr (.inr h))) fun h => .inr (.inr (.inl h)))
    have harray : Value.array [.i (env.refId rulename).toUInt32, bits.tree env,
        (Expr.ref actionname).tree env]
        = Function.update (Function.update (Value.array [.i (env.refId rulename).toUInt32]) 1
          (bits.tree env)) 2 ((Expr.ref actionname).tree env) :=
      array_ext rfl rfl rfl rfl rfl rfl rfl
    have htree : (Expr.rule rulename bits actionname).tree env
        = .p ExprOps.refRule.toChar (Function.update (Function.update
          (Value.array [.i (env.refId rulename).toUInt32]) 1 (bits.tree env)) 2
          ((Expr.ref actionname).tree env)) none [] :=
      congrArg (fun vs => Value.p ExprOps.refRule.toChar vs none []) harray
    rw [htree, Expr.output, append_assoc]
    refine Reads.bind hhead ?_
    show Reads (if ExprOps.refRule.toChar = ExprOps.refRule.toChar then _ else _) _ _
    rw [if_pos rfl]
    refine Reads.bind hbits ?_
    exact haction.bind_nil (Reads.pure _)
  | ref name =>
    have hchar : env.refChar name = ExprOps.refGrp.toChar := by
      have hg : env.refType name = some .refGrp := hb
      rw [Names.refChar, hg]
    have hread := reads_reference (.inr (.inr (.inl hb)))
    refine Reads.bind_nil hread ?_
    rw [Expr.tree, hchar]
    show Reads (if ExprOps.refGrp.toChar = ExprOps.refRule.toChar then _ else _) _ _
    rw [if_neg (by decide)]
    exact Reads.pure _
  | _ => exact hb.elim

namespace Group

/-- The bit lists of the filters that stand in the file. -/
def filterLists (g : Group) : List Expr :=
  (if PRDR_GROUP_FILTER_PRIORITY &&& g.cvFlags ≠ 0 then [g.cvPriorityList] else []) ++
    (if PRDR_GROUP_FILTER_CS_ROOT_CAUSE &&& g.cvFlags ≠ 0 then [g.cvCsRootCauseList] else [])

/-- A bit group whose lists and lines fit. -/
structure FitsGroup (g : Group) : Prop where
  filters : ∀ e ∈ g.filterLists, e.Fits
  lines : ∀ e ∈ g.cvRules, e.LineFits
  count : g.cvRules.length < 65536

/-- A bit group is read back, and the parts of its lists and lines with it. -/
structure RoundTripsGroup (env : Names) (g : Group) : Prop where
  filters : ∀ e ∈ g.filterLists, e.RoundTrips env
  lines : ∀ e ∈ g.cvRules, e.LineRoundTrips env
  group : Reads readGroup (g.output env) (g.loaded env)

/-- An action class whose actions fit. -/
structure FitsAction (g : Group) : Prop where
  actions : ∀ e ∈ g.cvRules, e.Fits
  count : g.cvRules.length < 65536

/-- An action class is read back, and the parts of its actions with it. -/
structure RoundTripsAction (env : Names) (g : Group) : Prop where
  actions : ∀ e ∈ g.cvRules, e.RoundTrips env
  action : Reads readAction (g.output env) (g.cvRules.map (Expr.tree env))

variable {env : Names} {g : Group}

theorem filters_built (hb : g.BuiltGroup env) : ∀ e ∈ g.filterLists, e.Built env := by
  obtain ⟨_, _, hpriority, hrootCause⟩ := hb
  intro e he
  rcases mem_append.mp he with h | h
  · split at h
    · rw [mem_singleton.mp h]
      exact hpriority ‹_›
    · exact absurd h not_mem_nil
  · split at h
    · rw [mem_singleton.mp h]
      exact hrootCause ‹_›
    · exact absurd h not_mem_nil

theorem reads_filter {c : Prop} [Decidable c] {e : Expr} (h : c → e.Built env ∧ e.Fits) :
    Reads (optional c ReadExpr (.i 0)) (if c then e.output env else [])
      (if c then e.tree env else .i 0) := by
  by_cases hc : c
  · rw [if_pos hc, if_pos hc]
    exact (Expr.reads_ReadExpr (h hc).1 (h hc).2).optional_pos hc
  · rw [if_neg hc, if_neg hc]
    exact Reads.optional_neg _ hc _

theorem reads_group (hb : g.BuiltGroup env) (hf : g.FitsGroup) :
    Reads readGroup (g.output env) (g.loaded env) := by
  obtain ⟨hop, hlines, hpriority, hrootCause⟩ := hb
  have hcount : (UInt16.ofNat g.cvRules.length).toNat = g.cvRules.length := by
    rw [UInt16.toNat_ofNat']
    exact Nat.mod_eq_of_lt hf.count
  have hfirst : PRDR_GROUP_FILTER_PRIORITY &&& g.cvFlags ≠ 0 →
      g.cvPriorityList.Built env ∧ g.cvPriorityList.Fits := fun h =>
    ⟨hpriority h, hf.filters _ (mem_append_left _ (by rw [if_pos h]; exact mem_cons_self))⟩
  have hsecond : PRDR_GROUP_FILTER_CS_ROOT_CAUSE &&& g.cvFlags ≠ 0 →
      g.cvCsRootCauseList.Built env ∧ g.cvCsRootCauseList.Fits := fun h =>
    ⟨hrootCause h, hf.filters _ (mem_append_right _ (by rw [if_pos h]; exact mem_cons_self))⟩
  have hrules : Reads (readLine.times g.cvRules.length) (g.cvRules.flatMap (Expr.output env))
      (g.cvRules.map (Expr.tree env)) :=
    Reads.times _ _ g.cvRules fun e he => reads_line (hlines e he) (hf.lines e he)
  rw [output, if_pos hop, hop]
  show Reads readGroup ([ExprOps.group.toChar] ++ (out16 (UInt16.ofNat g.cvRules.length) ++
    ([g.cvFlags] ++ (_ ++ _)) ++ g.cvRules.flatMap (Expr.output env))) (g.loaded env)
  simp only [append_assoc]
  refine Reads.bind (Reads.byte _) ?_
  refine Reads.bind (reads_16 _) ?_
  refine Reads.bind (Reads.byte _) ?_
  refine Reads.bind (reads_filter hfirst) ?_
  refine Reads.bind (reads_filter hsecond) ?_
  rw [hcount]
  exact hrules.bind_nil (Reads.pure _)

theorem length_of_readGroup {bs rest : Bytes} {l : LoadedGroup}
    (h : readGroup bs = some (l, rest)) : l.lines.length < 65536 := by
  obtain ⟨_, bs1, _, h1⟩ := of_bind h
  obtain ⟨size, bs2, _, h2⟩ := of_bind h1
  obtain ⟨flags, bs3, _, h3⟩ := of_bind h2
  obtain ⟨priority, bs4, _, h4⟩ := of_bind h3
  obtain ⟨rootCause, bs5, _, h5⟩ := of_bind h4
  obtain ⟨lines, bs6, hlines, h6⟩ := of_bind h5
  rw [of_pure h6]
  show lines.length < 65536
  rw [length_of_times hlines]
  exact size.toNat_lt

theorem roundTripsGroup_iff (hb : g.BuiltGroup env) : g.RoundTripsGroup env ↔ g.FitsGroup := by
  constructor
  · intro h
    refine ⟨?_, ?_, ?_⟩
    · exact fun e he => (Expr.roundTrips_iff (filters_built hb e he)).mp (h.filters e he)
    · exact fun e he => (Expr.lineRoundTrips_iff (hb.2.1 e he)).mp (h.lines e he)
    · have hlen := length_of_readGroup (h.group [])
      rwa [loaded, length_map] at hlen
  · intro h
    refine ⟨?_, ?_, reads_group hb h⟩
    · exact fun e he => (Expr.roundTrips_iff (filters_built hb e he)).mpr (h.filters e he)
    · exact fun e he => (Expr.lineRoundTrips_iff (hb.2.1 e he)).mpr (h.lines e he)

theorem reads_action (hb : g.BuiltAction env) (hf : g.FitsAction) :
    Reads readAction (g.output env) (g.cvRules.map (Expr.tree env)) := by
  have hrules := reads_counted (Expr.output env) (Expr.tree env) hf.count
    fun e he => Expr.reads_ReadExpr (hb.2 e he) (hf.actions e he)
  rw [output, hb.1, if_neg (by decide), append_nil]
  exact (Reads.byte _).bind hrules

theorem length_of_readAction {bs rest : Bytes} {l : List Value}
    (h : readAction bs = some (l, rest)) : l.length < 65536 := by
  obtain ⟨_, bs1, _, h1⟩ := of_bind h
  exact length_of_counted h1

theorem roundTripsAction_iff (hb : g.BuiltAction env) :
    g.RoundTripsAction env ↔ g.FitsAction := by
  constructor
  · intro h
    refine ⟨fun e he => (Expr.roundTrips_iff (hb.2 e he)).mp (h.actions e he), ?_⟩
    have hlen := length_of_readAction (h.action [])
    rwa [length_map] at hlen
  · intro h
    exact ⟨fun e he => (Expr.roundTrips_iff (hb.2 e he)).mpr (h.actions e he), reads_action hb h⟩

end Group

/-! ## The file -/

/-- Everything in the file fits: each register, rule, group and action class,
and the count of each. -/
structure RuleFile.Fits (f : RuleFile) : Prop where
  registers : ∀ r ∈ f.chip.cvReglist, r.Fits
  rules : ∀ e ∈ f.rules, e.Fits
  groups : ∀ g ∈ f.groups, g.FitsGroup
  actions : ∀ g ∈ f.actionclasses, g.FitsAction
  registerCount : f.chip.cvReglist.length < 65536
  ruleCount : f.rules.length < 65536
  groupCount : f.groups.length < 65536
  actionCount : f.actionclasses.length < 65536

/-- Each register, rule, group and action class is read back from its own
bytes, and `LoadChip` reads back the whole file. -/
structure RuleFile.RoundTrips (env : Names) (f : RuleFile) : Prop where
  registers : ∀ r ∈ f.chip.cvReglist,
    Reads (readRegister f.chip.cvScomlen) r.output (r.loaded f.chip.cvScomlen)
  rules : ∀ e ∈ f.rules, e.RoundTrips env
  groups : ∀ g ∈ f.groups, g.RoundTripsGroup env
  actions : ∀ g ∈ f.actionclasses, g.RoundTripsAction env
  file : Reads LoadChip (f.output env) (f.loaded env)

theorem reads_rule {env : Names} (hb : e.Built env) (hf : e.Fits) :
    Reads readRule (RuleFile.outputRule env e) (e.tree env) :=
  (Reads.byte _).bind (Expr.reads_ReadExpr hb hf)

theorem reads_header : Reads (Reader.byte.times 8) header header := by
  have h := Reads.times (fun b : UInt8 => [b]) id header fun b _ => Reads.byte b
  rw [map_id] at h
  have hbytes : header.flatMap (fun b : UInt8 => [b]) = header := by decide
  rw [hbytes] at h
  have hlen : header.length = 8 := by decide
  rwa [hlen] at h

theorem reads_file {env : Names} {f : RuleFile} (hb : f.Built env) (hf : f.Fits) :
    Reads LoadChip (f.output env) (f.loaded env) := by
  have hregisters := reads_counted Register.output (Register.loaded f.chip.cvScomlen)
    hf.registerCount fun r hr => reads_register f.chip.cvScomlen (hb.captures r hr)
      (hf.registers r hr)
  have hrules := reads_counted (RuleFile.outputRule env) (Expr.tree env) hf.ruleCount
    fun e he => reads_rule (hb.rules e he) (hf.rules e he)
  have hattn : Reads (read16.times 5) (f.attentionStartGroup.flatMap fun s => out16 (env.refId s))
      (f.attentionStartGroup.map env.refId) := by
    have h := Reads.times (fun s => out16 (env.refId s)) env.refId f.attentionStartGroup
      fun s _ => reads_16 (env.refId s)
    rwa [hb.attentions] at h
  have hgroupCount : (UInt16.ofNat f.groups.length).toNat = f.groups.length := by
    rw [UInt16.toNat_ofNat']
    exact Nat.mod_eq_of_lt hf.groupCount
  have hgroups : Reads (readGroup.times f.groups.length) (f.groups.flatMap (Group.output env))
      (f.groups.map (Group.loaded env)) :=
    Reads.times _ _ f.groups fun g hg => Group.reads_group (hb.groups g hg) (hf.groups g hg)
  have hactions := reads_counted (Group.output env) (fun g => g.cvRules.map (Expr.tree env))
    hf.actionCount fun g hg => Group.reads_action (hb.actions g hg) (hf.actions g hg)
  rw [RuleFile.output, Chip.output]
  simp only [append_assoc]
  refine Reads.bind reads_header ?_
  rw [if_neg (by simp)]
  refine Reads.bind (reads_32 _) ?_
  refine Reads.bind (reads_32 _) ?_
  refine Reads.bind (reads_32 _) ?_
  refine Reads.bind (reads_32 _) ?_
  refine Reads.bind (reads_16 _) ?_
  rw [← append_assoc]
  refine Reads.bind hregisters ?_
  rw [← append_assoc]
  refine Reads.bind hrules ?_
  refine Reads.bind (reads_16 _) ?_
  refine Reads.bind hattn ?_
  rw [hgroupCount]
  refine Reads.bind hgroups ?_
  exact hactions.bind_nil (Reads.pure _)

theorem counts_of_LoadChip {c : LoadedChip} (h : LoadChip bs = some (c, rest)) :
    c.cvRegisters.length < 65536 ∧ c.cvRules.length < 65536 ∧ c.cvGroups.length < 65536 ∧
      c.cvActions.length < 65536 := by
  obtain ⟨temp, bs1, _, h1⟩ := of_bind h
  by_cases htemp : temp ≠ header
  · rw [if_pos htemp] at h1
    exact absurd h1 (by simp [fail])
  rw [if_neg htemp] at h1
  obtain ⟨chipId, bs2, _, h2⟩ := of_bind h1
  obtain ⟨targetType, bs3, _, h3⟩ := of_bind h2
  obtain ⟨signatureOffset, bs4, _, h4⟩ := of_bind h3
  obtain ⟨dumpType, bs5, _, h5⟩ := of_bind h4
  obtain ⟨scomLen, bs6, _, h6⟩ := of_bind h5
  obtain ⟨registers, bs7, hregisters, h7⟩ := of_bind h6
  obtain ⟨rules, bs8, hrules, h8⟩ := of_bind h7
  obtain ⟨groupCount, bs9, _, h9⟩ := of_bind h8
  obtain ⟨groupAttn, bs10, _, h10⟩ := of_bind h9
  obtain ⟨groups, bs11, hgroups, h11⟩ := of_bind h10
  obtain ⟨actions, bs12, hactions, h12⟩ := of_bind h11
  have hgroupCount : groups.length < 65536 := by
    rw [length_of_times hgroups]
    exact groupCount.toNat_lt
  rw [of_pure h12]
  exact ⟨length_of_counted hregisters, length_of_counted hrules, hgroupCount,
    length_of_counted hactions⟩

/-- For every file of the grammar: each register, rule expression, group and
action class, with all its parts, and the whole file are read back as they were
written exactly when everything in it fits. -/
theorem roundTrip_iff (env : Names) (f : RuleFile) (hb : f.Built env) :
    f.RoundTrips env ↔ f.Fits := by
  constructor
  · intro h
    obtain ⟨hregisters, hrules, hgroups, hactions⟩ := counts_of_LoadChip (h.file [])
    rw [RuleFile.loaded, length_map] at hregisters hrules hgroups hactions
    exact {
      registers := fun r hr =>
        (Register.reads_iff f.chip.cvScomlen (hb.captures r hr)).mp (h.registers r hr)
      rules := fun e he => (Expr.roundTrips_iff (hb.rules e he)).mp (h.rules e he)
      groups := fun g hg => (Group.roundTripsGroup_iff (hb.groups g hg)).mp (h.groups g hg)
      actions := fun g hg => (Group.roundTripsAction_iff (hb.actions g hg)).mp (h.actions g hg)
      registerCount := hregisters
      ruleCount := hrules
      groupCount := hgroups
      actionCount := hactions }
  · intro h
    exact {
      registers := fun r hr =>
        (Register.reads_iff f.chip.cvScomlen (hb.captures r hr)).mpr (h.registers r hr)
      rules := fun e he => (Expr.roundTrips_iff (hb.rules e he)).mpr (h.rules e he)
      groups := fun g hg => (Group.roundTripsGroup_iff (hb.groups g hg)).mpr (h.groups g hg)
      actions := fun g hg => (Group.roundTripsAction_iff (hb.actions g hg)).mpr (h.actions g hg)
      file := reads_file hb h }

/-! ## Two files -/

/-- Tables in which every name is a register's, and the first one. -/
def sampleNames : Names where
  refType := fun _ => some .refReg
  refId := fun _ => 1
  actionArg := fun _ => 2
  captureGroup := fun _ => 3

/-- A file with one register, one rule and the action class `actions`. -/
def sampleFile (actions : List Expr) : RuleFile where
  chip := ⟨1, 2, 3, 4, 64, [⟨chars ['F', 'I', 'R'], 0, 0x4000, 0, [⟨0x7c, 1, 1⟩], [],
    [⟨.func, 0, 0, chars ['"', 'f', '"']⟩]⟩]⟩
  rules := [.op2 .and (.ref (chars ['F', 'I', 'R'])) (.bitString (chars ['`', '1', 'f', 'f', 'f',
    'f', 'f', 'f', 'f', 'f', 'f', 'f', 'f', 'f', 'f', 'f', 'f', '`']))]
  groups := []
  actionclasses := [⟨actions, .null, .null, .action, 0⟩]
  attentionStartGroup := [[], [], [], [], []]

theorem sampleFile_built {actions : List Expr} (h : ∀ e ∈ actions, e.Built sampleNames) :
    (sampleFile actions).Built sampleNames where
  captures := by
    intro r hr c hc _
    have hr' := mem_singleton.mp hr
    rw [hr'] at hc
    rw [mem_singleton.mp hc]
    exact ⟨chars ['f'], rfl, by decide⟩
  rules := by
    intro e he
    rw [mem_singleton.mp he]
    refine ⟨by simp, ?_⟩
    intro s hs
    simp only [Expr.parts, cons_append, nil_append, mem_cons, not_mem_nil,
      or_false] at hs
    rcases hs with rfl | rfl | rfl
    · exact ⟨.inl rfl, by simp, by simp⟩
    · exact .inr (.inl rfl)
    · refine ⟨0x31 :: List.replicate 15 0x66, rfl, ?_⟩
      intro d hd
      rcases mem_cons.mp hd with rfl | hmem
      · decide
      · rw [eq_of_mem_replicate hmem]
        decide
  groups := fun g hg => absurd hg not_mem_nil
  actions := by
    intro g hg
    rw [mem_singleton.mp hg]
    exact ⟨rfl, h⟩
  attentions := rfl

theorem sampleFile_fits {actions : List Expr} (h : ∀ e ∈ actions, e.Fits)
    (hcount : actions.length < 65536) : (sampleFile actions).Fits where
  registers := by
    intro r hr
    rw [mem_singleton.mp hr]
    refine ⟨by decide, by decide, by decide, ?_⟩
    intro c hc _
    rw [mem_singleton.mp hc]
    decide
  rules := by
    intro e he
    rw [mem_singleton.mp he]
    intro s hs
    simp only [Expr.parts, cons_append, nil_append, mem_cons, not_mem_nil,
      or_false] at hs
    rcases hs with rfl | rfl | rfl
    · exact trivial
    · exact trivial
    · exact ⟨by decide, by decide⟩
  groups := fun g hg => absurd hg not_mem_nil
  actions := by
    intro g hg
    rw [mem_singleton.mp hg]
    exact ⟨h, hcount⟩
  registerCount := by simp [sampleFile]
  ruleCount := by simp [sampleFile]
  groupCount := by simp [sampleFile]
  actionCount := by simp [sampleFile]

/-- A threshold of two a day, with or without a shared id. -/
def sampleThresh (shared : UInt32) : Expr := .actThresh 2 (some ⟨1, .day⟩) 0 none none shared

theorem sampleThresh_built (shared : UInt32) : (sampleThresh shared).Built sampleNames := by
  refine ⟨by simp [sampleThresh], ?_⟩
  intro s hs
  rw [mem_singleton.mp hs]
  exact ⟨by simp, .inl rfl⟩

/-- Without a shared id the file survives. -/
theorem roundTrip_unshared : (sampleFile [sampleThresh 0]).RoundTrips sampleNames :=
  (roundTrip_iff sampleNames (sampleFile [sampleThresh 0])
    (sampleFile_built (by simpa using sampleThresh_built 0))).mpr
    (sampleFile_fits (by simp [Expr.Fits, sampleThresh, Expr.parts, Expr.FitsHere]) (by decide))

/-- With a shared id it does not: the reader takes four bytes of the next
node. -/
theorem shared_not_roundTrips : (sampleFile [sampleThresh 1]).Built sampleNames ∧
    ¬ (sampleFile [sampleThresh 1]).RoundTrips sampleNames := by
  refine ⟨sampleFile_built (by simpa using sampleThresh_built 1), ?_⟩
  intro h
  have haction := h.actions _ mem_cons_self
  have hread := haction.actions _ mem_cons_self _ mem_cons_self []
  have hnone : ReadExpr ((sampleThresh 1).output sampleNames ++ []) = none := by rfl
  rw [hnone] at hread
  exact absurd hread (by simp)

end Hostboot.Prdf
