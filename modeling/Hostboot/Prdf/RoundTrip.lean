import Hostboot.Prdf.LoadChip

/-!
# The round trip of an expression

The main result, `Expr.roundTrips_iff`, says for every expression of the
grammar exactly when `ReadExpr` gives back what `output` wrote, for it and for
each of its parts.  Four kinds of nodes do not survive:

* a threshold with a shared id, of which the writer puts four bytes and the
  reader takes eight;
* a bit string whose bytes do not fill whole words, or whose length in bits
  does not fit a byte;
* a function name that does not fit the buffer of `ReadString`;
* a short integer that does not fit 16 bits.

The proof has three groups.  The lemmas `reads_*` follow the readers of the
fields and of the nodes.  `Expr.reads` is the induction over expressions: what
fits is read back, from any stream.  The `fits_of_*` lemmas are the converses,
each from one property of every value that its reader can return.
-/

namespace Hostboot.Prdf

open Lib Wire Reader List
open Function (update update_eq_self_iff)

/-! ## Fields -/

theorem reads_16 (n : UInt16) : Reads read16 (out16 n) n := by
  have h : Reads (word 2) (encode 2 n.toNat) n.toNat := Reads.word n.toNat_lt
  have hmap := h.map UInt16.ofNat
  rwa [UInt16.ofNat_toNat] at hmap

theorem reads_32 (n : UInt32) : Reads read32 (out32 n) n := by
  have h : Reads (word 4) (encode 4 n.toNat) n.toNat := Reads.word n.toNat_lt
  have hmap := h.map UInt32.ofNat
  rwa [UInt32.ofNat_toNat] at hmap

theorem reads_64 (n : UInt64) : Reads read64 (out64 n) n := by
  have h : Reads (word 8) (encode 8 n.toNat) n.toNat := Reads.word n.toNat_lt
  have hmap := h.map UInt64.ofNat
  rwa [UInt64.ofNat_toNat] at hmap

theorem reads_int (n : UInt32) : Reads readInt (out32 n) (.i n) := (reads_32 n).map Value.i

variable {s : Str} {bs : Bytes} {k n : Nat} {vs vs' : Fin 7 → Value} {p : Reader Value} {v : Value}
  {e : Expr} {op : ExprOps} {env : Names}

theorem takeString_cstr (h : 0 ∉ s) (rest : Bytes) :
    takeString (cstr s ++ rest) = some (s, rest) := by
  induction s with
  | nil => rfl
  | cons c s ih =>
    have hc : c ≠ 0 := fun h0 => h (h0 ▸ mem_cons_self)
    have hs : 0 ∉ s := fun hmem => h (mem_cons_of_mem _ hmem)
    show takeString (c :: (cstr s ++ rest)) = some (c :: s, rest)
    rw [takeString, if_neg hc, ih hs]

theorem reads_string (h0 : 0 ∉ s) (hlen : s.length < 100) :
    Reads readString (cstr s) s := by
  intro rest
  rw [readString, takeString_cstr h0 rest]
  exact if_pos hlen

theorem length_of_readString {rest : Bytes} (h : readString bs = some (s, rest)) :
    s.length < 100 := by
  rw [readString] at h
  cases ht : takeString bs with
  | none =>
    rw [ht] at h
    exact absurd h (by simp)
  | some x =>
    rw [ht] at h
    by_cases hx : x.1.length < 100
    · have hs := (if_pos hx).symm.trans h
      cases hs
      exact hx
    · have hs := (if_neg hx).symm.trans h
      exact absurd hs (by simp)

/-! ## Bit strings -/

theorem toNat_nibbles {d d' : UInt8} (hd : d.toNat < 16) (hd' : d'.toNat < 16) :
    ((d <<< 4) ||| d').toNat = 16 * d.toNat + d'.toNat := by
  have hshift : (d <<< 4).toNat = 16 * d.toNat := by
    rw [UInt8.toNat_shiftLeft]
    show d.toNat <<< 4 % 2 ^ 8 = 16 * d.toNat
    rw [Nat.shiftLeft_eq]
    omega
  have hor : 2 ^ 4 * d.toNat + d'.toNat = 2 ^ 4 * d.toNat ||| d'.toNat :=
    Nat.two_pow_add_eq_or_of_lt (by omega) d.toNat
  rw [UInt8.toNat_or, hshift]
  exact hor.symm

theorem hexValue_lt {c : UInt8} (h : IsHexDigit c) : (hexValue c).toNat < 16 := by
  have hall : ∀ n : Fin 256, IsHexDigit (UInt8.ofNat n) → (hexValue (UInt8.ofNat n)).toNat < 16 := by
    decide +kernel
  have hc := hall ⟨c.toNat, c.toNat_lt⟩
  rw [UInt8.ofNat_toNat] at hc
  exact hc h

/-- The digits read as one number, after the number `n`. -/
def nibbleValue (n : Nat) (ds : List UInt8) : Nat := ds.foldl (fun n d => 16 * n + d.toNat) n

/-- The packed bytes stand for the same number as the digits, an odd number of
them with one more zero. -/
theorem foldl_packNibbles :
    ∀ (ds : List UInt8) (n : Nat), (∀ d ∈ ds, d.toNat < 16) →
      (packNibbles ds).foldl (fun n b => 256 * n + b.toNat) n
        = nibbleValue n (ds ++ List.replicate (ds.length % 2) 0)
  | [], _, _ => rfl
  | [d], n, h => by
    have hd : d.toNat < 16 := h d mem_cons_self
    have hzero : (d <<< 4).toNat = 16 * d.toNat := by
      have h0 := toNat_nibbles hd (show (0 : UInt8).toNat < 16 by decide)
      simpa using h0
    show 256 * n + (d <<< 4).toNat = 16 * (16 * n + d.toNat) + 0
    rw [hzero]
    omega
  | d :: d' :: ds, n, h => by
    have hd : d.toNat < 16 := h d mem_cons_self
    have hd' : d'.toNat < 16 := h d' (mem_cons_of_mem _ mem_cons_self)
    have htail := foldl_packNibbles ds (256 * n + ((d <<< 4) ||| d').toNat)
      fun x hx => h x (mem_cons_of_mem _ (mem_cons_of_mem _ hx))
    have hstart : 256 * n + ((d <<< 4) ||| d').toNat = 16 * (16 * n + d.toNat) + d'.toNat := by
      rw [toNat_nibbles hd hd']
      omega
    have hlen : (d :: d' :: ds).length % 2 = ds.length % 2 := by
      simp only [length_cons]
      omega
    rw [hlen]
    rw [hstart] at htail
    rw [packNibbles, foldl_cons, hstart]
    exact htail

theorem length_packNibbles : ∀ ds : List UInt8, (packNibbles ds).length = (ds.length + 1) / 2
  | [] => rfl
  | [d] => by simp [packNibbles]
  | d :: d' :: ds => by
    rw [packNibbles, length_cons, length_packNibbles ds]
    simp only [length_cons]
    omega

theorem packNibbles_append : ∀ ds es : List UInt8, ds.length % 2 = 0 →
    packNibbles (ds ++ es) = packNibbles ds ++ packNibbles es
  | [], _, _ => rfl
  | [d], _, h => absurd h (by simp)
  | d :: d' :: ds, es, h => by
    have hds : ds.length % 2 = 0 := by
      simp only [length_cons] at h
      omega
    show ((d <<< 4) ||| d') :: packNibbles (ds ++ es) = _
    rw [packNibbles_append ds es hds]
    rfl

theorem reads_words :
    ∀ (k : Nat) (ds : List UInt8), (∀ d ∈ ds, d.toNat < 16) → (ds.length + 1) / 2 = 8 * k →
      Reads (read64.times k) (packNibbles ds) (bitWordsFrom k ds)
  | 0, ds, _, hk => by
    have hnil : ds = [] := length_eq_zero_iff.mp (by omega)
    rw [hnil]
    exact Reads.pure _
  | k + 1, ds, hlt, hk => by
    have hsplit : packNibbles ds = packNibbles (ds.take 16) ++ packNibbles (ds.drop 16) := by
      by_cases hlen : 16 ≤ ds.length
      · have heven : (ds.take 16).length % 2 = 0 := by
          rw [length_take]
          omega
        rw [← packNibbles_append _ _ heven, take_append_drop]
      · have hdrop : ds.drop 16 = [] := drop_eq_nil_of_le (by omega)
        have htake : ds.take 16 = ds := take_of_length_le (by omega)
        rw [hdrop, htake]
        exact (append_nil _).symm
    have hbytes : (packNibbles (ds.take 16)).length = 8 := by
      rw [length_packNibbles, length_take]
      omega
    have hvalue : decode (packNibbles (ds.take 16))
        = nibbleValue 0 (ds.take 16 ++ List.replicate (16 - ds.length) 0) := by
      have hpad : (ds.take 16).length % 2 = 16 - ds.length := by
        rw [length_take]
        omega
      rw [decode, foldl_packNibbles _ 0 fun d hd => hlt d (mem_of_mem_take hd), hpad]
    have hword : Reads read64 (packNibbles (ds.take 16)) (UInt64.ofNat
        (nibbleValue 0 (ds.take 16 ++ List.replicate (16 - ds.length) 0))) := by
      have hread := (Reads.word_decode hbytes).map UInt64.ofNat
      rwa [hvalue] at hread
    have htail : Reads (read64.times k) (packNibbles (ds.drop 16)) (bitWordsFrom k (ds.drop 16)) :=
      reads_words k (ds.drop 16) (fun d hd => hlt d (mem_of_mem_drop hd)) (by
        rw [length_drop]
        omega)
    rw [hsplit]
    exact hword.bind (htail.bind_nil (Reads.pure _))

/-- The bytes of `n` digits fill whole words, and their length in bits fits a
byte. -/
def WholeWords (n : Nat) : Prop := n < 64 ∧ (n + 1) / 2 % 8 = 0

theorem length_bitWordsFrom (k : Nat) (ds : List UInt8) : (bitWordsFrom k ds).length = k := by
  induction k generalizing ds with
  | zero => rfl
  | succ k ih => rw [bitWordsFrom, length_cons, ih]

theorem bytes_of_bits (n : Nat) :
    n * 4 / 8 + (if n * 4 % 8 ≠ 0 then 1 else 0) = (n + 1) / 2 := by
  split <;> omega

theorem reads_bitString {ds : List UInt8} (hlt : ∀ d ∈ ds, d.toNat < 16)
    (hw : WholeWords ds.length) :
    Reads readBitString (UInt8.ofNat (ds.length * 4) :: packNibbles ds) (bitWords ds) := by
  have hbits : (UInt8.ofNat (ds.length * 4)).toNat = ds.length * 4 := by
    rw [UInt8.toNat_ofNat']
    exact Nat.mod_eq_of_lt (by have := hw.1; omega)
  have hbody : Reads (read64.times (((UInt8.ofNat (ds.length * 4)).toNat / 8 +
      if (UInt8.ofNat (ds.length * 4)).toNat % 8 ≠ 0 then 1 else 0) / 8)) (packNibbles ds)
      (bitWords ds) := by
    rw [hbits, bytes_of_bits]
    have hk : (ds.length + 15) / 16 = (ds.length + 1) / 2 / 8 := by
      have := hw.2
      omega
    rw [bitWords, hk]
    exact reads_words _ ds hlt (by have := hw.2; omega)
  exact (Reads.byte _).bind hbody

/-! ## Thresholds -/

theorem reads_store (vs : Fin 7 → Value) (hk : k < 7) (v : Value) :
    Reads (store vs k v) [] (update vs ⟨k, hk⟩ v) := by
  rw [store, dif_pos hk]
  exact Reads.pure _

theorem reads_policy {named : Bool} {i : Nat} (f : UInt8) (t : UInt32) (hi : 2 * i + 1 < 7)
    (hcount : i ≠ 1 ∨ named = false) (hrest : Reads (readPolicies named k (i + 1) (update (update vs
      ⟨2 * i, by omega⟩ (.i f.toUInt32)) ⟨2 * i + 1, hi⟩ (.i t))) bs vs') :
    Reads (readPolicies named (k + 1) i vs) (f :: out32 t ++ bs) vs' := by
  have hfreq : Reads (readFreq i vs) [f] (update vs ⟨2 * i, by omega⟩ (.i f.toUInt32)) :=
    (Reads.byte f).bind_nil (reads_store vs (by omega) _)
  have hstore := (reads_store
    (update vs ⟨2 * i, by omega⟩ (.i f.toUInt32)) hi (.i t)).bind hrest
  show Reads (readPolicies named (k + 1) i vs) ([f] ++ (out32 t ++ bs)) vs'
  exact (hfreq.optional_pos hcount).bind ((reads_int t).bind hstore)

theorem reads_policy_named (t : UInt32)
    (hrest : Reads (readPolicies true k 2 (update vs 3 (.i t))) bs vs') :
    Reads (readPolicies true (k + 1) 1 vs) (out32 t ++ bs) vs' := by
  have hskip : Reads (optional ((1 : Nat) ≠ 1 ∨ true = false) (readFreq 1 vs) vs) [] vs :=
    Reads.optional_neg _ (by decide) vs
  have hstore := (reads_store vs (show 3 < 7 by decide) (.i t)).bind hrest
  exact hskip.bind ((reads_int t).bind hstore)

theorem array_ext {ws : Fin 7 → Value} (h0 : vs 0 = ws 0) (h1 : vs 1 = ws 1) (h2 : vs 2 = ws 2)
    (h3 : vs 3 = ws 3) (h4 : vs 4 = ws 4) (h5 : vs 5 = ws 5) (h6 : vs 6 = ws 6) : vs = ws := by
  funext k
  match k with
  | 0 => exact h0
  | 1 => exact h1
  | 2 => exact h2
  | 3 => exact h3
  | 4 => exact h4
  | 5 => exact h5
  | 6 => exact h6

/-- The default policies with the field policy of a threshold. -/
def fieldPolicies (named : Bool) (field : UInt8) (t : ExprTime) : Fin 7 → Value :=
  update (update (defaultPolicies named) 0 (.i field.toUInt32)) 1 (.i t.seconds)

/-- How many policies a threshold has. -/
def policyCount (fieldTime mfgTime : Option ExprTime) (mfgFile : Option Str) : Nat :=
  if fieldTime.isNone then 0 else if mfgTime.isNone && mfgFile.isNone then 1 else 2

section

variable {field mfg : UInt8} {fieldTime mfgTime : Option ExprTime} {mfgFile : Option Str}
  {shared : UInt32}

theorem threshFlags_spec (fieldTime mfgTime : Option ExprTime) (mfgFile : Option Str)
    (shared : UInt32) :
    decide (threshFlags fieldTime mfgTime mfgFile shared &&& 0x40 = 0x40) = decide (shared ≠ 0) ∧
    decide (threshFlags fieldTime mfgTime mfgFile shared &&& ~~~0x40 &&& 0x20 = 0x20)
      = mfgFile.isSome ∧
    (threshFlags fieldTime mfgTime mfgFile shared &&& ~~~0x40 &&& ~~~0x20).toNat
      = policyCount fieldTime mfgTime mfgFile := by
  cases fieldTime <;> cases mfgTime <;> cases mfgFile <;> by_cases h : shared = 0 <;>
    simp [threshFlags, policyCount, h] <;> decide

theorem reads_policies (env : Names) (field mfg : UInt8)
    (hfield : fieldTime = none → mfgTime = none ∧ mfgFile = none)
    (hmfg : mfgTime = none ∨ mfgFile = none) :
    Reads (readPolicies mfgFile.isSome (policyCount fieldTime mfgTime mfgFile) 0
        (defaultPolicies mfgFile.isSome))
      (threshPolicies env field fieldTime mfg mfgTime mfgFile)
      (Value.array (threshEntries env field fieldTime mfg mfgTime mfgFile 0)) := by
  cases fieldTime with
  | none =>
    have htime : mfgTime = none := (hfield rfl).1
    have hfile : mfgFile = none := (hfield rfl).2
    subst htime hfile
    have hentries : Value.array (threshEntries env field none mfg none none 0)
        = defaultPolicies false := array_ext rfl rfl rfl rfl rfl rfl rfl
    rw [hentries]
    exact Reads.pure _
  | some t =>
    cases mfgTime with
    | none =>
      cases mfgFile with
      | none =>
        have hentries : Value.array (threshEntries env field (some t) mfg none none 0)
            = fieldPolicies false field t := array_ext rfl rfl rfl rfl rfl rfl rfl
        rw [hentries]
        exact reads_policy field t.seconds (by decide) (.inl (by decide)) (Reads.pure _)
      | some name =>
        have hentries : Value.array (threshEntries env field (some t) mfg none (some name) 0)
            = update (fieldPolicies true field t) 3 (.i (env.actionArg name)) :=
          array_ext rfl rfl rfl rfl rfl rfl rfl
        have hnamed : Reads (readPolicies true 1 1 (fieldPolicies true field t))
            (out32 (env.actionArg name) ++ [])
            (update (fieldPolicies true field t) 3 (.i (env.actionArg name))) :=
          reads_policy_named _ (Reads.pure _)
        rw [append_nil] at hnamed
        rw [hentries]
        exact reads_policy field t.seconds (by decide) (.inl (by decide)) hnamed
    | some t' =>
      have hfile : mfgFile = none := hmfg.resolve_left (by simp)
      subst hfile
      have hentries : Value.array (threshEntries env field (some t) mfg (some t') none 0)
          = update (update (fieldPolicies false field t) 2 (.i mfg.toUInt32)) 3
            (.i t'.seconds) := array_ext rfl rfl rfl rfl rfl rfl rfl
      have hsecond : Reads (readPolicies false 1 1 (fieldPolicies false field t))
          (mfg :: out32 t'.seconds ++ [])
          (update (update (fieldPolicies false field t) 2 (.i mfg.toUInt32)) 3
            (.i t'.seconds)) :=
        reads_policy mfg t'.seconds (by decide) (.inr rfl) (Reads.pure _)
      rw [append_nil] at hsecond
      rw [hentries]
      exact reads_policy field t.seconds (by decide) (.inl (by decide)) hsecond

theorem readThresh_cons (bs : Bytes) :
    readThresh (threshFlags fieldTime mfgTime mfgFile shared :: bs) = (do
      let vs ← readPolicies mfgFile.isSome (policyCount fieldTime mfgTime mfgFile) 0
        (defaultPolicies mfgFile.isSome)
      optional (decide (shared ≠ 0) = true) (readShared vs) vs : Reader (Fin 7 → Value)) bs := by
  obtain ⟨hshared, hnamed, hcount⟩ := threshFlags_spec fieldTime mfgTime mfgFile shared
  rw [← hshared, ← hnamed, ← hcount]
  rfl

theorem reads_thresh (env : Names) (field mfg : UInt8)
    (hfield : fieldTime = none → mfgTime = none ∧ mfgFile = none)
    (hmfg : mfgTime = none ∨ mfgFile = none) :
    Reads readThresh (threshFlags fieldTime mfgTime mfgFile 0 ::
        threshPolicies env field fieldTime mfg mfgTime mfgFile)
      (Value.array (threshEntries env field fieldTime mfg mfgTime mfgFile 0)) := by
  intro rest
  show readThresh (threshFlags fieldTime mfgTime mfgFile 0 ::
    (threshPolicies env field fieldTime mfg mfgTime mfgFile ++ rest)) = _
  rw [readThresh_cons]
  have hskip : ∀ vs, Reads (optional (decide ((0 : UInt32) ≠ 0) = true) (readShared vs) vs) [] vs :=
    fun vs => Reads.optional_neg _ (by decide) vs
  exact (reads_policies env field mfg hfield hmfg).bind_nil (hskip _) rest

/-- A shared id is read four bytes too far: at the end of a stream there is
nothing left to read. -/
theorem readThresh_shared (env : Names) (field mfg : UInt8)
    (hfield : fieldTime = none → mfgTime = none ∧ mfgFile = none)
    (hmfg : mfgTime = none ∨ mfgFile = none) (hshared : shared ≠ 0) :
    readThresh (threshFlags fieldTime mfgTime mfgFile shared ::
      (threshPolicies env field fieldTime mfg mfgTime mfgFile ++ out32 shared)) = none := by
  cases hread : readThresh (threshFlags fieldTime mfgTime mfgFile shared ::
      (threshPolicies env field fieldTime mfg mfgTime mfgFile ++ out32 shared)) with
  | none => rfl
  | some x =>
    exfalso
    rw [readThresh_cons] at hread
    obtain ⟨vs, bs1, hpolicies, hunion⟩ := of_bind hread
    have hbs := ((reads_policies env field mfg hfield hmfg).eq_of_read hpolicies).2
    subst hbs
    have hopt : optional (decide (shared ≠ 0) = true) (readShared vs) vs = readShared vs :=
      if_pos (by simpa using hshared)
    rw [hopt] at hunion
    obtain ⟨v, bs2, hentry, _⟩ := of_bind hunion
    obtain ⟨v', bs3, hint, hpad⟩ := of_bind hentry
    have hend := (reads_int shared).eq_of_read_all hint
    rw [hend.2] at hpad
    obtain ⟨k, bs4, hword, _⟩ := of_bind hpad
    exact absurd (le_of_word hword) (by decide)

end

/-! ## Callouts and attention links -/

theorem reads_calloutArgs {alt : Expr} (arg index peer : UInt32)
    (hread : alt ≠ .null → Reads p bs v) (hnull : alt = .null → bs = [] ∧ v = .i 0) :
    Reads (readCalloutArgs p)
      (out32 arg ++ (out32 index ++ (hasAlt alt :: (bs ++ out32 peer))))
      [.i arg, .i index, v, .i peer] := by
  have hpeer : Reads (do
      let peer ← readInt
      pure [.i arg, .i index, v, peer]) (out32 peer) [.i arg, .i index, v, .i peer] :=
    (reads_int peer).bind_nil (Reads.pure _)
  refine (reads_int arg).bind ((reads_int index).bind ?_)
  by_cases h : alt = .null
  · have hbs : bs = [] := (hnull h).1
    have hv : v = .i 0 := (hnull h).2
    subst h hbs hv
    exact (Reads.byte 0).bind ((Reads.optional_neg p (by decide) (.i 0)).bind hpeer)
  · have hone : hasAlt alt = 1 := by
      cases alt <;> first | rfl | exact absurd rfl h
    rw [hone]
    exact (Reads.byte 1).bind (((hread h).optional_pos (by decide)).bind hpeer)

theorem reads_link {bs' : Bytes} (hk : k < 7) (hread : e ≠ .null → Reads p bs v)
    (hnull : e = .null → v = .i 0) (hvs : vs ⟨k, hk⟩ = .i 0)
    (hrest : Reads (readLinks p n (update vs ⟨k, hk⟩ v)) bs' vs') :
    Reads (readLinks p ((linkEntry (UInt8.ofNat k) e bs).length + n) vs)
      (((linkEntry (UInt8.ofNat k) e bs).flatMap fun l => l.1 :: l.2) ++ bs') vs' := by
  by_cases h : e = .null
  · have hsame : update vs ⟨k, hk⟩ v = vs := by
      rw [hnull h]
      exact update_eq_self_iff.mpr hvs.symm
    subst h
    rw [hsame] at hrest
    show Reads (readLinks p (0 + n) vs) ([] ++ bs') vs'
    rw [Nat.zero_add, nil_append]
    exact hrest
  · have hentry : linkEntry (UInt8.ofNat k) e bs = [(UInt8.ofNat k, bs)] := by
      cases e <;> first | rfl | exact absurd rfl h
    have hindex : (UInt8.ofNat k).toNat = k := by
      rw [UInt8.toNat_ofNat']
      omega
    have hstore : Reads (store vs (UInt8.ofNat k).toNat v) [] (update vs ⟨k, hk⟩ v) := by
      rw [hindex]
      exact reads_store vs hk v
    rw [hentry]
    show Reads (readLinks p (1 + n) vs) ([UInt8.ofNat k] ++ (bs ++ []) ++ bs') vs'
    rw [Nat.add_comm 1 n, append_nil, append_assoc]
    exact (Reads.byte _).bind ((hread h).bind (hstore.bind hrest))

/-! ## Expressions -/

namespace Expr

/-- What one node must meet to survive the file. -/
def FitsHere : Expr → Prop
  | int value op => op = .intShort → value.toNat < 65536
  | bitString value => WholeWords (value.length - 2)
  | actThresh _ _ _ _ _ shared => shared = 0
  | actFunccall func _ => (unquote func).length < 100
  | _ => True

/-- Every node of the expression survives. -/
def Fits (e : Expr) : Prop := ∀ s ∈ e.parts, s.FitsHere

/-- The calls of `ReadExpr` below each other. -/
def height : Expr → Nat
  | null => 0
  | op1 _ arg => arg.height + 1
  | op2 _ arg0 arg1 => max arg0.height arg1.height + 1
  | attnLink check recov special proccs hostattn =>
    max check.height (max recov.height (max special.height (max proccs.height hostattn.height))) + 1
  | actTry left right => max left.height right.height + 1
  | actCallout _ _ type _ alt _ => (if type = .gardSelf then 0 else alt.height) + 1
  | _ => 1

attribute [grind =] FitsHere height

end Expr

theorem reads_node (h : Reads (readBody (readExpr n) op.toChar) bs v) :
    Reads (readExpr (n + 1)) (op.toChar :: bs) v := (Reads.byte _).bind h

theorem reads_binary {bs' : Bytes} {v' : Value} (hop : op = .and ∨ op = .or ∨ op = .xor ∨ op =
      .lshift ∨ op = .rshift ∨ op = .summary ∨ op = .actTry) (h : Reads p bs v)
    (h' : Reads p bs' v') :
    Reads (readBody p op.toChar) (bs ++ bs') (.node op.toChar [v, v']) := by
  have hbody : readBody p op.toChar = (do
      let l ← p
      let r ← p
      pure (.node op.toChar [l, r])) := by
    rw [readBody, ExprOps.ofChar_toChar]
    rcases hop with h | h | h | h | h | h | h <;> rw [h]
  rw [hbody]
  exact h.bind (h'.bind_nil (Reads.pure _))

theorem reads_integer (n : UInt32)
    (hop : op = .integer ∨ op = .actFlag ∨ op = .actDump ∨ op = .actCapt) :
    Reads (readBody p op.toChar) (out32 n) (.node op.toChar [.i n]) := by
  have hbody : readBody p op.toChar = (do
      let v ← readInt
      pure (.node op.toChar [v])) := by
    rw [readBody, ExprOps.ofChar_toChar]
    rcases hop with h | h | h | h <;> rw [h]
  rw [hbody]
  exact (reads_int n).bind_nil (Reads.pure _)

theorem reads_short (n : UInt16)
    (hop : op = .refRule ∨ op = .refReg ∨ op = .refGrp ∨ op = .refAct ∨ op = .intShort) :
    Reads (readBody p op.toChar) (out16 n) (.node op.toChar [.i n.toUInt32]) := by
  have hbody : readBody p op.toChar = (do
      let v ← read16
      pure (.node op.toChar [.i v.toUInt32])) := by
    rw [readBody, ExprOps.ofChar_toChar]
    rcases hop with h | h | h | h | h <;> rw [h]
  rw [hbody]
  exact (reads_16 n).bind_nil (Reads.pure _)

theorem reads_ref (env : Names) {name : Str} (h : (Expr.ref name).BuiltHere env) :
    Reads (readExpr (n + 1)) ((Expr.ref name).output env) ((Expr.ref name).tree env) := by
  have hop : ∀ o : ExprOps, env.refType name = some o →
      (o = .refRule ∨ o = .refReg ∨ o = .refGrp ∨ o = .refAct ∨ o = .intShort) →
      Reads (readExpr (n + 1)) ((Expr.ref name).output env) ((Expr.ref name).tree env) := by
    intro o ho hkind
    have hchar : env.refChar name = o.toChar := by rw [Names.refChar, ho]
    rw [Expr.output, Expr.tree, hchar]
    exact reads_node (reads_short _ hkind)
  rcases h with h | h | h | h
  · exact hop _ h (.inl rfl)
  · exact hop _ h (.inr (.inl rfl))
  · exact hop _ h (.inr (.inr (.inl rfl)))
  · exact hop _ h (.inr (.inr (.inr (.inl rfl))))

theorem reads_bitStringNode {value : Str} (hb : (Expr.bitString value).BuiltHere env)
    (hf : (Expr.bitString value).FitsHere) :
    Reads (readExpr (n + 1)) ((Expr.bitString value).output env)
      ((Expr.bitString value).tree env) := by
  obtain ⟨digits, hvalue, hhex⟩ := hb
  have hlen : value.length - 2 = digits.length := by
    rw [hvalue]
    simp
  have hdrop : (value.drop 1).take digits.length = digits := by
    rw [hvalue]
    exact take_left
  have hw : WholeWords digits.length := hlen ▸ hf
  have hfour : (UInt8.ofNat (digits.length * 4)).toNat / 4 = digits.length := by
    rw [UInt8.toNat_ofNat']
    have := hw.1
    omega
  have hout : (Expr.bitString value).output env = ExprOps.bitStr.toChar ::
      (UInt8.ofNat (digits.length * 4) :: packNibbles (digits.map hexValue)) := by
    rw [Expr.output, hlen, hfour, hdrop]
  have htree : (Expr.bitString value).tree env = .p ExprOps.bitStr.toChar (Value.array []) none
      (bitWords (digits.map hexValue)) := by
    rw [Expr.tree, bitDigits, hlen, hdrop]
  have hlt : ∀ d ∈ digits.map hexValue, d.toNat < 16 := by
    intro d hd
    obtain ⟨c, hc, rfl⟩ := mem_map.mp hd
    exact hexValue_lt (hhex c hc)
  have hread := reads_bitString hlt (by rw [length_map]; exact hw)
  rw [length_map] at hread
  have hbody : Reads (readBody (readExpr n) ExprOps.bitStr.toChar)
      (UInt8.ofNat (digits.length * 4) :: packNibbles (digits.map hexValue))
      (.p ExprOps.bitStr.toChar (Value.array []) none (bitWords (digits.map hexValue))) := by
    rw [readBody, ExprOps.ofChar_toChar]
    exact hread.bind_nil (Reads.pure _)
  rw [hout, htree]
  exact reads_node hbody

theorem reads_threshNode {field mfg : UInt8} {fieldTime mfgTime : Option ExprTime}
    {mfgFile : Option Str} (hfield : fieldTime = none → mfgTime = none ∧ mfgFile = none)
    (hmfg : mfgTime = none ∨ mfgFile = none) :
    Reads (readExpr (n + 1)) ((Expr.actThresh field fieldTime mfg mfgTime mfgFile 0).output env)
      ((Expr.actThresh field fieldTime mfg mfgTime mfgFile 0).tree env) := by
  have hread := reads_thresh env field mfg hfield hmfg
  have hbody : Reads (readBody (readExpr n) ExprOps.actThres.toChar)
      (threshFlags fieldTime mfgTime mfgFile 0 ::
        threshPolicies env field fieldTime mfg mfgTime mfgFile)
      (.node ExprOps.actThres.toChar
        (threshEntries env field fieldTime mfg mfgTime mfgFile 0)) := by
    rw [readBody, ExprOps.ofChar_toChar]
    exact hread.bind_nil (Reads.pure _)
  have hout : (Expr.actThresh field fieldTime mfg mfgTime mfgFile 0).output env
      = ExprOps.actThres.toChar :: (threshFlags fieldTime mfgTime mfgFile 0 ::
        threshPolicies env field fieldTime mfg mfgTime mfgFile) := by
    rw [Expr.output, if_neg (by decide), append_nil]
  rw [hout]
  exact reads_node hbody

/-- The four entries of a callout after its priority. -/
def calloutArgs (env : Names) (arg : Option Str) (type : CalloutType) (index : UInt32)
    (alt : Value) : List Value :=
  if type = .gardSelf then [.i 0, .i 0, .i 0, .i 0]
  else [.i (env.actionArg (arg.getD [])), .i index, alt,
    .i (env.actionArg (if type = .gardPeer then arg.getD [] else typeNa))]

theorem reads_calloutBody {vs : List Value} (h : Reads (readCallout p) bs vs) :
    Reads (readBody p ExprOps.actCall.toChar) bs (.node ExprOps.actCall.toChar vs) := by
  rw [readBody, ExprOps.ofChar_toChar]
  exact h.bind_nil (Reads.pure _)

theorem reads_calloutNode {priority : Str} {arg : Option Str} {type : CalloutType} {index : UInt32}
    {alt : Expr} {state : Option Str}
    (hread : alt ≠ .null → Reads (readExpr n) (alt.output env) (alt.tree env)) :
    Reads (readExpr (n + 1)) ((Expr.actCallout priority arg type index alt state).output env)
      ((Expr.actCallout priority arg type index alt state).tree env) := by
  have hnull : alt = .null → alt.output env = [] ∧ alt.tree env = .i 0 := by
    intro h
    rw [h]
    exact ⟨rfl, rfl⟩
  have hargs : Reads (optional (type.toChar ≠ CalloutType.gardSelf.toChar)
      (readCalloutArgs (readExpr n)) [.i 0, .i 0, .i 0, .i 0])
      (if type = .gardSelf then []
        else
          out32 (env.actionArg (arg.getD [])) ++ (out32 index ++ (hasAlt alt :: (alt.output env ++
            out32 (env.actionArg (if type = .gardPeer then arg.getD [] else typeNa))))))
      (calloutArgs env arg type index (alt.tree env)) := by
    by_cases hself : type = .gardSelf
    · rw [calloutArgs, if_pos hself, if_pos hself, hself]
      exact Reads.optional_neg _ (by decide) _
    · have hchar : type.toChar ≠ CalloutType.gardSelf.toChar := by
        cases type <;> first | decide | exact absurd rfl hself
      rw [calloutArgs, if_neg hself, if_neg hself]
      exact (reads_calloutArgs _ _ _ hread hnull).optional_pos hchar
  have hcallout : Reads (readCallout (readExpr n))
      ([type.toChar] ++ (out32 (env.actionArg priority) ++ ((if type = .gardSelf then []
        else
          out32 (env.actionArg (arg.getD [])) ++ (out32 index ++ (hasAlt alt :: (alt.output env ++
            out32 (env.actionArg (if type = .gardPeer then arg.getD [] else typeNa)))))) ++
        [gardState env type state])))
      (.i type.toChar.toUInt32 :: .i (env.actionArg priority) ::
        (calloutArgs env arg type index (alt.tree env) ++
          [.i (gardState env type state).toUInt32])) := by
    refine Reads.bind (Reads.byte _) ?_
    refine Reads.bind (reads_int _) ?_
    refine Reads.bind hargs ?_
    exact (Reads.byte _).bind_nil (Reads.pure _)
  rw [Expr.output, append_assoc]
  exact reads_node (reads_calloutBody hcallout)

theorem reads_funccallNode {func : Str} {chip : Option Str}
    (hb : (Expr.actFunccall func chip).BuiltHere env) (hf : (Expr.actFunccall func chip).FitsHere) :
    Reads (readExpr (n + 1)) ((Expr.actFunccall func chip).output env)
      ((Expr.actFunccall func chip).tree env) := by
  obtain ⟨text, htoken, hzero⟩ := hb
  have htext : unquote func = text := by
    rw [unquote, htoken]
    simp
  have hbody : Reads (readBody (readExpr n) ExprOps.actFunc.toChar)
      (cstr (unquote func) ++ out32 (funcChip env chip))
      (.p ExprOps.actFunc.toChar (Value.array [.i 0, .i (funcChip env chip)])
        (some (unquote func)) []) := by
    rw [readBody, ExprOps.ofChar_toChar]
    refine Reads.bind (reads_string (htext ▸ hzero) hf) ?_
    exact (reads_int _).bind_nil (Reads.pure _)
  exact reads_node hbody

theorem length_linkEntry (k : UInt8) (e : Expr) (bs : Bytes) : (linkEntry k e bs).length ≤ 1 := by
  cases e <;> simp [linkEntry]

theorem reads_linkBody {count : UInt8} (h : Reads (readLinks p count.toNat (Value.array [])) bs vs)
    :
    Reads (readBody p ExprOps.attnlink.toChar) (count :: bs)
      (.p ExprOps.attnlink.toChar vs none []) := by
  rw [readBody, ExprOps.ofChar_toChar]
  exact (Reads.byte count).bind (h.bind_nil (Reads.pure _))

/-- An attention link, given the reads of the operands that are there. -/
theorem reads_linkNode {check recov special proccs hostattn : Expr}
    (h0 : check ≠ .null → Reads (readExpr n) (check.output env) (check.tree env))
    (h1 : recov ≠ .null → Reads (readExpr n) (recov.output env) (recov.tree env))
    (h2 : special ≠ .null → Reads (readExpr n) (special.output env) (special.tree env))
    (h3 : proccs ≠ .null → Reads (readExpr n) (proccs.output env) (proccs.tree env))
    (h4 : hostattn ≠ .null → Reads (readExpr n) (hostattn.output env) (hostattn.tree env)) :
    Reads (readExpr (n + 1)) ((Expr.attnLink check recov special proccs hostattn).output env)
      ((Expr.attnLink check recov special proccs hostattn).tree env) := by
  have hnull : ∀ e : Expr, e = .null → e.tree env = .i 0 := fun e h => h ▸ rfl
  let v0 : Fin 7 → Value := Value.array []
  let v1 := update v0 0 (check.tree env)
  let v2 := update v1 1 (recov.tree env)
  let v3 := update v2 2 (special.tree env)
  let v4 := update v3 3 (proccs.tree env)
  let v5 := update v4 4 (hostattn.tree env)
  let bytes : List (UInt8 × Bytes) → Bytes := fun ls => ls.flatMap fun l => l.1 :: l.2
  let l0 := linkEntry 0 check (check.output env)
  let l1 := linkEntry 1 recov (recov.output env)
  let l2 := linkEntry 2 special (special.output env)
  let l3 := linkEntry 3 proccs (proccs.output env)
  let l4 := linkEntry 4 hostattn (hostattn.output env)
  have hdone : Reads (readLinks (readExpr n) 0 v5) [] v5 := Reads.pure v5
  have hlink4 : Reads (readLinks (readExpr n) (l4.length + 0) v4) (bytes l4 ++ []) v5 :=
    reads_link (k := 4) (by decide) h4 (hnull _) rfl hdone
  have hlink3 : Reads (readLinks (readExpr n) (l3.length + (l4.length + 0)) v3)
      (bytes l3 ++ (bytes l4 ++ [])) v5 :=
    reads_link (k := 3) (by decide) h3 (hnull _) rfl hlink4
  have hlink2 : Reads (readLinks (readExpr n) (l2.length + (l3.length + (l4.length + 0))) v2)
      (bytes l2 ++ (bytes l3 ++ (bytes l4 ++ []))) v5 :=
    reads_link (k := 2) (by decide) h2 (hnull _) rfl hlink3
  have hlink1 : Reads (readLinks (readExpr n)
      (l1.length + (l2.length + (l3.length + (l4.length + 0)))) v1)
      (bytes l1 ++ (bytes l2 ++ (bytes l3 ++ (bytes l4 ++ [])))) v5 :=
    reads_link (k := 1) (by decide) h1 (hnull _) rfl hlink2
  have hlink0 : Reads (readLinks (readExpr n)
      (l0.length + (l1.length + (l2.length + (l3.length + (l4.length + 0))))) v0)
      (bytes l0 ++ (bytes l1 ++ (bytes l2 ++ (bytes l3 ++ (bytes l4 ++ []))))) v5 :=
    reads_link (k := 0) (by decide) h0 (hnull _) rfl hlink1
  have hentries : v5 = Value.array [check.tree env, recov.tree env, special.tree env,
      proccs.tree env, hostattn.tree env] := array_ext rfl rfl rfl rfl rfl rfl rfl
  have hlength : (l0 ++ l1 ++ l2 ++ l3 ++ l4).length
      = l0.length + (l1.length + (l2.length + (l3.length + (l4.length + 0)))) := by
    simp only [length_append, Nat.add_assoc, Nat.add_zero]
  have hbytes : bytes (l0 ++ l1 ++ l2 ++ l3 ++ l4)
      = bytes l0 ++ (bytes l1 ++ (bytes l2 ++ (bytes l3 ++ (bytes l4 ++ [])))) := by
    simp only [bytes, flatMap_append, append_assoc, append_nil]
  have hlinks : Reads (readLinks (readExpr n) (l0 ++ l1 ++ l2 ++ l3 ++ l4).length v0)
      (bytes (l0 ++ l1 ++ l2 ++ l3 ++ l4)) v5 := by
    rw [hlength, hbytes]
    exact hlink0
  have hcount : (UInt8.ofNat (l0 ++ l1 ++ l2 ++ l3 ++ l4).length).toNat
      = (l0 ++ l1 ++ l2 ++ l3 ++ l4).length := by
    have hlen0 : l0.length ≤ 1 := length_linkEntry ..
    have hlen1 : l1.length ≤ 1 := length_linkEntry ..
    have hlen2 : l2.length ≤ 1 := length_linkEntry ..
    have hlen3 : l3.length ≤ 1 := length_linkEntry ..
    have hlen4 : l4.length ≤ 1 := length_linkEntry ..
    rw [UInt8.toNat_ofNat', hlength]
    omega
  rw [← hcount, hentries] at hlinks
  exact reads_node (reads_linkBody hlinks)

theorem Expr.exists_round {e : Expr} (hne : e ≠ .null) (hn : e.height ≤ n) : ∃ m, n = m + 1 := by
  refine ⟨n - 1, ?_⟩
  cases e with
  | null => exact absurd rfl hne
  | _ => simp only [height] at hn; omega

/-- What fits is read back, at every depth that the calls have room for. -/
theorem Expr.reads (e : Expr) :
    ∀ n : Nat, e.height ≤ n → e ≠ .null → (∀ s ∈ e.parts, s.BuiltHere env ∧ s.FitsHere) →
      Reads (readExpr n) (e.output env) (e.tree env) := by
  induction e with
  | null => exact fun n _ hne _ => absurd rfl hne
  | ref name =>
    intro n hn hne hparts
    obtain ⟨m, rfl⟩ := exists_round hne hn
    exact reads_ref env (hparts _ mem_cons_self).1
  | int value op =>
    intro n hn hne hparts
    obtain ⟨m, rfl⟩ := exists_round hne hn
    obtain ⟨hb, hf⟩ := hparts _ mem_cons_self
    rcases hb with h | h
    · rw [Expr.output, Expr.tree, h, if_neg (by simp)]
      exact reads_node (reads_integer value (.inl rfl))
    · have hsame : value.toUInt16.toUInt32 = value := by
        apply UInt32.toNat_inj.mp
        rw [UInt16.toNat_toUInt32, UInt32.toNat_toUInt16]
        exact Nat.mod_eq_of_lt (hf h)
      have hread := reads_node (n := m) (reads_short value.toUInt16
        (.inr (.inr (.inr (.inr rfl)))))
      rw [hsame] at hread
      rw [Expr.output, Expr.tree, h, if_pos (by simp)]
      exact hread
  | bitString value =>
    intro n hn hne hparts
    obtain ⟨m, rfl⟩ := exists_round hne hn
    obtain ⟨hb, hf⟩ := hparts _ mem_cons_self
    exact reads_bitStringNode hb hf
  | op1 op arg ih =>
    intro n hn hne hparts
    obtain ⟨m, rfl⟩ := exists_round hne hn
    obtain ⟨⟨hop, harg⟩, _⟩ := hparts _ mem_cons_self
    have hread := ih m (by simp only [height] at hn; omega) harg
      fun s hs => hparts s (mem_cons_of_mem _ hs)
    subst hop
    have hbody : Reads (readBody (readExpr m) ExprOps.not.toChar) (arg.output env)
        (.node ExprOps.not.toChar [arg.tree env]) := by
      rw [readBody, ExprOps.ofChar_toChar]
      exact hread.bind_nil (Reads.pure _)
    exact reads_node hbody
  | op2 op arg0 arg1 ih0 ih1 =>
    intro n hn hne hparts
    obtain ⟨m, rfl⟩ := exists_round hne hn
    obtain ⟨⟨hop, harg0, harg1⟩, _⟩ := hparts _ mem_cons_self
    have hread0 := ih0 m (by simp only [height] at hn; omega) harg0
      fun s hs => hparts s (mem_cons_of_mem _ (mem_append_left _ hs))
    have hread1 := ih1 m (by simp only [height] at hn; omega) harg1
      fun s hs => hparts s (mem_cons_of_mem _ (mem_append_right _ hs))
    have hkind : op = .and ∨ op = .or ∨ op = .xor ∨ op = .lshift ∨ op = .rshift ∨
        op = .summary ∨ op = .actTry := by
      rcases hop with h | h | h | h | h | h <;> simp [h]
    exact reads_node (reads_binary hkind hread0 hread1)
  | attnLink check recov special proccs hostattn ih0 ih1 ih2 ih3 ih4 =>
    intro n hn hne hparts
    obtain ⟨m, rfl⟩ := exists_round hne hn
    simp only [height] at hn
    have hmem : ∀ s, s ∈ check.parts ∨ s ∈ recov.parts ∨ s ∈ special.parts ∨ s ∈ proccs.parts ∨
        s ∈ hostattn.parts → s.BuiltHere env ∧ s.FitsHere := by
      intro s hs
      refine hparts s (mem_cons_of_mem _ ?_)
      simp only [mem_append]
      tauto
    exact reads_linkNode
      (fun h => ih0 m (by omega) h fun s hs => hmem s (.inl hs))
      (fun h => ih1 m (by omega) h fun s hs => hmem s (.inr (.inl hs)))
      (fun h => ih2 m (by omega) h fun s hs => hmem s (.inr (.inr (.inl hs))))
      (fun h => ih3 m (by omega) h fun s hs => hmem s (.inr (.inr (.inr (.inl hs)))))
      (fun h => ih4 m (by omega) h fun s hs => hmem s (.inr (.inr (.inr (.inr hs)))))
  | rule rulename bits actionname =>
    intro n _ _ hparts
    exact (hparts _ mem_cons_self).1.elim
  | actTry left right ih0 ih1 =>
    intro n hn hne hparts
    obtain ⟨m, rfl⟩ := exists_round hne hn
    obtain ⟨⟨hleft, hright⟩, _⟩ := hparts _ mem_cons_self
    have hread0 := ih0 m (by simp only [height] at hn; omega) hleft
      fun s hs => hparts s (mem_cons_of_mem _ (mem_append_left _ hs))
    have hread1 := ih1 m (by simp only [height] at hn; omega) hright
      fun s hs => hparts s (mem_cons_of_mem _ (mem_append_right _ hs))
    exact reads_node (reads_binary (by simp) hread0 hread1)
  | actThresh field fieldTime mfg mfgTime mfgFile shared =>
    intro n hn hne hparts
    obtain ⟨m, rfl⟩ := exists_round hne hn
    obtain ⟨⟨hfield, hmfg⟩, hshared⟩ := hparts _ mem_cons_self
    have h0 : shared = 0 := hshared
    subst h0
    exact reads_threshNode hfield hmfg
  | actDump arg =>
    intro n hn hne _
    obtain ⟨m, rfl⟩ := exists_round hne hn
    exact reads_node (reads_integer _ (by simp))
  | actAnalyse type index =>
    intro n hn hne _
    obtain ⟨m, rfl⟩ := exists_round hne hn
    have hbody : Reads (readBody (readExpr m) ExprOps.actAnaly.toChar)
        (out32 (env.actionArg type) ++ out32 index)
        (.node ExprOps.actAnaly.toChar [.i (env.actionArg type), .i index]) := by
      rw [readBody, ExprOps.ofChar_toChar]
      refine Reads.bind (reads_int _) ?_
      exact (reads_int _).bind_nil (Reads.pure _)
    exact reads_node hbody
  | actCallout priority arg type index alt state ih =>
    intro n hn hne hparts
    obtain ⟨m, rfl⟩ := exists_round hne hn
    refine reads_calloutNode fun h => ?_
    have hself : type ≠ .gardSelf := by
      intro hself
      have hb : (actCallout priority arg type index alt state).BuiltHere env :=
        (hparts _ mem_cons_self).1
      rw [BuiltHere, if_pos hself] at hb
      exact h hb.2
    have hm : alt.height ≤ m := by
      simp only [height, if_neg hself] at hn
      omega
    exact ih m hm h fun s hs => hparts s (mem_cons_of_mem _ hs)
  | actFunccall func chip =>
    intro n hn hne hparts
    obtain ⟨m, rfl⟩ := exists_round hne hn
    obtain ⟨hb, hf⟩ := hparts _ mem_cons_self
    exact reads_funccallNode hb hf
  | actFlag flag =>
    intro n hn hne _
    obtain ⟨m, rfl⟩ := exists_round hne hn
    exact reads_node (reads_integer _ (by simp))
  | actCapture group =>
    intro n hn hne _
    obtain ⟨m, rfl⟩ := exists_round hne hn
    exact reads_node (reads_integer _ (by simp))

theorem Expr.height_le (env : Names) (e : Expr) : e.height ≤ (e.output env).length := by
  have hlink : ∀ (k : UInt8) (e : Expr) (bs : Bytes), e.height ≤ bs.length →
      e.height ≤ ((linkEntry k e bs).flatMap fun l => l.1 :: l.2).length := by
    intro k e bs h
    cases e with
    | null => exact Nat.zero_le _
    | _ =>
      simp only [linkEntry, flatMap_cons, flatMap_nil, append_nil, length_cons]
      omega
  induction e with
  | null => exact Nat.le_refl 0
  | op1 op arg ih =>
    simp only [height, output, length_cons]
    omega
  | op2 op arg0 arg1 ih0 ih1 =>
    simp only [height, output, length_cons, length_append]
    omega
  | attnLink check recov special proccs hostattn ih0 ih1 ih2 ih3 ih4 =>
    have h0 := hlink 0 check _ ih0
    have h1 := hlink 1 recov _ ih1
    have h2 := hlink 2 special _ ih2
    have h3 := hlink 3 proccs _ ih3
    have h4 := hlink 4 hostattn _ ih4
    simp only [height, output, length_cons, flatMap_append, length_append]
    omega
  | actTry left right ih0 ih1 =>
    simp only [height, output, length_cons, length_append]
    omega
  | actCallout priority arg type index alt state ih =>
    by_cases hself : type = .gardSelf
    · simp only [height, output, length_cons, if_pos hself]
      omega
    · simp only [height, output, length_cons, length_append, if_neg hself]
      omega
  | _ =>
    simp only [height, output, length_cons, length_append]
    omega

theorem Expr.reads_ReadExpr (hb : e.Built env) (hf : e.Fits) :
    Reads ReadExpr (e.output env) (e.tree env) := by
  intro rest
  have hlen : e.height ≤ (e.output env ++ rest).length := by
    rw [length_append]
    exact Nat.le_trans (e.height_le env) (Nat.le_add_right _ _)
  exact e.reads _ hlen hb.1 (fun s hs => ⟨hb.2 s hs, hf s hs⟩) rest

/-! ## What does not fit is not read back -/

theorem body_of_read (h : Reads ReadExpr (op.toChar :: bs) v) :
    ∃ n rest, readBody (readExpr n) op.toChar bs = some (v, rest) := by
  have hend : ReadExpr (op.toChar :: bs ++ []) = some (v, []) := h []
  rw [append_nil] at hend
  exact ⟨bs.length, [], hend⟩

theorem fits_of_int {value : UInt32}
    (h : Reads ReadExpr ((Expr.int value op).output env) ((Expr.int value op).tree env)) :
    (Expr.int value op).FitsHere := by
  intro hop
  subst hop
  rw [Expr.output, if_pos (by simp)] at h
  obtain ⟨n, rest, hbody⟩ := body_of_read h
  have hshort : Reads (readBody (readExpr n) ExprOps.intShort.toChar) (out16 value.toUInt16)
      (.node ExprOps.intShort.toChar [.i value.toUInt16.toUInt32]) :=
    reads_short _ (.inr (.inr (.inr (.inr rfl))))
  have hread := hshort.eq_of_read_all hbody
  have hvalue : Value.i value = Value.i value.toUInt16.toUInt32 := by
    have hnode := hread.1
    rw [Expr.tree, Value.node, Value.node] at hnode
    injection hnode with _ harray
    exact congrFun harray 0
  injection hvalue with hsame
  rw [hsame, UInt16.toNat_toUInt32]
  exact UInt16.toNat_lt _

theorem length_bitWords (ds : List UInt8) : (bitWords ds).length = (ds.length + 15) / 16 :=
  length_bitWordsFrom _ ds

theorem wholeWords_of_count
    (h : (n * 4 % 256 / 8 + if n * 4 % 256 % 8 ≠ 0 then 1 else 0) / 8 = (n + 15) / 16) :
    WholeWords n := by
  rw [WholeWords]
  split at h <;> omega

theorem fits_of_bitString {value : Str} (hb : (Expr.bitString value).BuiltHere env)
    (h : Reads ReadExpr ((Expr.bitString value).output env) ((Expr.bitString value).tree env)) :
    (Expr.bitString value).FitsHere := by
  obtain ⟨digits, hvalue, _⟩ := hb
  have hlen : value.length - 2 = digits.length := by
    rw [hvalue]
    simp
  rw [Expr.output] at h
  obtain ⟨n, rest, hbody⟩ := body_of_read h
  rw [readBody, ExprOps.ofChar_toChar] at hbody
  obtain ⟨ws, bs1, hbits, hpure⟩ := of_bind hbody
  obtain ⟨l, bs2, hl, htimes⟩ := of_bind hbits
  cases hl
  have hws : bitWords ((bitDigits value).map hexValue) = ws := by
    have hnode := of_pure hpure
    rw [Expr.tree] at hnode
    injection hnode
  have hcount := length_of_times htimes
  have hdigits : (bitDigits value).length = digits.length := by
    rw [bitDigits, hvalue]
    simp
  rw [← hws, length_bitWords, length_map, hdigits, UInt8.toNat_ofNat', hlen] at hcount
  show WholeWords (value.length - 2)
  rw [hlen]
  exact wholeWords_of_count hcount.symm

theorem fits_of_thresh {field mfg : UInt8} {fieldTime mfgTime : Option ExprTime}
    {mfgFile : Option Str} {shared : UInt32}
    (hb : (Expr.actThresh field fieldTime mfg mfgTime mfgFile shared).BuiltHere env) (h : Reads
      ReadExpr ((Expr.actThresh field fieldTime mfg mfgTime mfgFile shared).output env)
    ((Expr.actThresh field fieldTime mfg mfgTime mfgFile shared).tree env)) :
    (Expr.actThresh field fieldTime mfg mfgTime mfgFile shared).FitsHere := by
  by_contra hshared
  have hne : shared ≠ 0 := hshared
  rw [Expr.output, if_pos hne] at h
  obtain ⟨n, rest, hbody⟩ := body_of_read h
  rw [readBody, ExprOps.ofChar_toChar] at hbody
  obtain ⟨vs, bs1, hthresh, _⟩ := of_bind hbody
  rw [readThresh_shared env field mfg hb.1 hb.2 hne] at hthresh
  exact absurd hthresh (by simp)

theorem fits_of_funccall {func : Str} {chip : Option Str} (h : Reads ReadExpr ((Expr.actFunccall
      func chip).output env) ((Expr.actFunccall func chip).tree env)) :
    (Expr.actFunccall func chip).FitsHere := by
  rw [Expr.output] at h
  obtain ⟨n, rest, hbody⟩ := body_of_read h
  rw [readBody, ExprOps.ofChar_toChar] at hbody
  obtain ⟨s, bs1, hstring, hrest⟩ := of_bind hbody
  obtain ⟨v, bs2, _, hpure⟩ := of_bind hrest
  have hsame : unquote func = s := by
    have hnode := of_pure hpure
    rw [Expr.tree] at hnode
    injection hnode with _ _ hfunc
    injection hfunc
  show (unquote func).length < 100
  rw [hsame]
  exact length_of_readString hstring

theorem Expr.fitsHere_of_reads (hb : e.BuiltHere env)
    (h : Reads ReadExpr (e.output env) (e.tree env)) : e.FitsHere := by
  cases e with
  | int => exact fits_of_int h
  | bitString => exact fits_of_bitString hb h
  | actThresh => exact fits_of_thresh hb h
  | actFunccall => exact fits_of_funccall h
  | _ => exact trivial

/-- Every part of the expression is read back from its own bytes. -/
def Expr.RoundTrips (env : Names) (e : Expr) : Prop :=
  ∀ s ∈ e.parts, Reads ReadExpr (s.output env) (s.tree env)

theorem Expr.parts_trans {s t : Expr} (hs : s ∈ e.parts) (ht : t ∈ s.parts) : t ∈ e.parts := by
  induction e with
  | null => exact absurd hs not_mem_nil
  | op1 op arg ih =>
    rcases mem_cons.mp hs with rfl | h
    · exact ht
    · exact mem_cons_of_mem _ (ih h)
  | op2 op arg0 arg1 ih0 ih1 =>
    rcases mem_cons.mp hs with rfl | h
    · exact ht
    · refine mem_cons_of_mem _ (mem_append.mpr ?_)
      exact (mem_append.mp h).imp ih0 ih1
  | attnLink check recov special proccs hostattn ih0 ih1 ih2 ih3 ih4 =>
    rcases mem_cons.mp hs with rfl | h
    · exact ht
    · refine mem_cons_of_mem _ ?_
      simp only [mem_append] at h ⊢
      exact h.imp (Or.imp (Or.imp (Or.imp ih0 ih1) ih2) ih3) ih4
  | rule rulename bits actionname ih =>
    rcases mem_cons.mp hs with rfl | h
    · exact ht
    · exact mem_cons_of_mem _ (ih h)
  | actTry left right ih0 ih1 =>
    rcases mem_cons.mp hs with rfl | h
    · exact ht
    · refine mem_cons_of_mem _ (mem_append.mpr ?_)
      exact (mem_append.mp h).imp ih0 ih1
  | actCallout priority arg type index alt state ih =>
    rcases mem_cons.mp hs with rfl | h
    · exact ht
    · exact mem_cons_of_mem _ (ih h)
  | _ =>
    rw [mem_singleton.mp hs] at ht
    exact ht

/-- An expression is read back, with all its parts, exactly when it fits. -/
theorem Expr.roundTrips_iff (hb : e.Built env) :
    e.RoundTrips env ↔ e.Fits := by
  constructor
  · intro h s hs
    exact fitsHere_of_reads (hb.2 s hs) (h s hs)
  · intro h s hs
    have hs0 : s ≠ .null := by
      intro h0
      have hbuilt := hb.2 s hs
      rw [h0] at hbuilt
      exact hbuilt
    exact reads_ReadExpr ⟨hs0, fun t ht => hb.2 t (parts_trans hs ht)⟩
      fun t ht => h t (parts_trans hs ht)

end Hostboot.Prdf
