import Mathlib.Algebra.Group.Nat.Defs
import Mathlib.Tactic.Common

/-!
# Byte streams, big-endian words and prefix round trips

`Reader α` takes a value off the front of a byte stream and hands back what it
left; a stream that ends early is `none`.

`Reads p bs a` is the round trip in the form that composes: whatever follows
the bytes `bs`, the reader `p` consumes exactly them and returns `a`.  A format
is proved by walking its reader: `Reads.bind` splits the bytes at a bind,
`Reads.map` renames a result, and `Reads.times` handles a counted list.

`encode k n` are the low `k` bytes of `n`, most significant first, and
`Reads.word` reads them back.
-/

namespace Hostboot.Lib

open List

/-- A byte stream. -/
abbrev Bytes : Type := List UInt8

/-- A reader of a byte stream. -/
abbrev Reader : Type → Type := StateT Bytes Option

/-! ## Words -/

namespace Wire

/-- The low `k` bytes of `n`, most significant first. -/
def encode : Nat → Nat → Bytes
  | 0, _ => []
  | k + 1, n => encode k (n / 256) ++ [UInt8.ofNat n]

/-- The number that the bytes stand for, most significant first. -/
def decode (bs : Bytes) : Nat := bs.foldl (fun n b => 256 * n + b.toNat) 0

@[simp] theorem length_encode (k n : Nat) : (encode k n).length = k := by
  induction k generalizing n with
  | zero => rfl
  | succ k ih => simp [encode, ih]

theorem decode_encode (k n : Nat) : decode (encode k n) = n % 256 ^ k := by
  induction k generalizing n with
  | zero =>
    rw [Nat.pow_zero, Nat.mod_one]
    rfl
  | succ k ih =>
    have hih : List.foldl (fun n b => 256 * n + b.toNat) 0 (encode k (n / 256))
        = n / 256 % 256 ^ k := ih (n / 256)
    rw [decode, encode, foldl_append, hih]
    simp only [foldl_cons, foldl_nil]
    have hpow : 256 ^ (k + 1) = 256 * 256 ^ k := by rw [Nat.pow_succ, Nat.mul_comm]
    rw [UInt8.toNat_ofNat', hpow, Nat.mod_mul]
    omega

theorem decode_append (bs : Bytes) (b : UInt8) :
    decode (bs ++ [b]) = 256 * decode bs + b.toNat := by
  rw [decode, foldl_append]
  rfl

theorem snoc_of_length {k : Nat} {bs : Bytes} (h : bs.length = k + 1) :
    ∃ init b, bs = init ++ [b] ∧ init.length = k := by
  rcases bs.eq_nil_or_concat with rfl | ⟨init, b, rfl⟩
  · exact absurd h (by simp)
  · refine ⟨init, b, concat_eq_append, ?_⟩
    rw [length_concat] at h
    omega

theorem decode_lt {k : Nat} {bs : Bytes} (h : bs.length = k) : decode bs < 256 ^ k := by
  induction k generalizing bs with
  | zero =>
    rw [eq_nil_of_length_eq_zero h]
    exact Nat.one_pos
  | succ k ih =>
    obtain ⟨init, b, rfl, hlen⟩ := snoc_of_length h
    have hinit := ih hlen
    have hb := b.toNat_lt
    rw [decode_append, Nat.pow_succ]
    omega

theorem encode_decode {k : Nat} {bs : Bytes} (h : bs.length = k) : encode k (decode bs) = bs := by
  induction k generalizing bs with
  | zero =>
    rw [eq_nil_of_length_eq_zero h]
    rfl
  | succ k ih =>
    obtain ⟨init, b, rfl, hlen⟩ := snoc_of_length h
    have hb := b.toNat_lt
    have hhigh : (256 * decode init + b.toNat) / 256 = decode init := by omega
    have hlow : UInt8.ofNat (256 * decode init + b.toNat) = b := by
      refine UInt8.toNat_inj.mp ?_
      rw [UInt8.toNat_ofNat']
      omega
    rw [encode, decode_append, hhigh, hlow, ih hlen]

theorem decode_encode_of_lt {k n : Nat} (h : n < 256 ^ k) : decode (encode k n) = n := by
  rw [decode_encode, Nat.mod_eq_of_lt h]

end Wire

/-! ## Readers -/

namespace Reader

open Wire

/-- Take one byte. -/
def byte : Reader UInt8 := fun bs =>
  match bs with
  | [] => none
  | b :: bs => some (b, bs)

/-- Take a big-endian number of `k` bytes. -/
def word (k : Nat) : Reader Nat := fun bs =>
  if bs.length < k then none else some (decode (bs.take k), bs.drop k)

/-- Read `n` values, one after the other. -/
def times {α : Type} (p : Reader α) : Nat → Reader (List α)
  | 0 => pure []
  | n + 1 => do
    let a ← p
    let as ← times p n
    pure (a :: as)

/-- Read a value that is only there under a condition. -/
def optional {α : Type} (c : Prop) [Decidable c] (p : Reader α) (a : α) : Reader α :=
  if c then p else pure a

/-- A step that cannot be taken, such as an access outside an array. -/
def fail {α : Type} : Reader α := fun _ => none

variable {α β : Type}

variable {p : Reader α} {bs rest : Bytes} {n : Nat}

theorem of_bind {f : α → Reader β} {b : β} (h : (p >>= f) bs = some (b, rest)) :
    ∃ a bs', p bs = some (a, bs') ∧ f a bs' = some (b, rest) := by
  have hb : (p bs).bind (fun x => f x.1 x.2) = some (b, rest) := h
  obtain ⟨x, hx, hf⟩ := Option.bind_eq_some_iff.mp hb
  exact ⟨x.1, x.2, hx, hf⟩

theorem of_pure {a b : α} (h : (pure a : Reader α) bs = some (b, rest)) :
    b = a := by
  have hpair : some (a, bs) = some (b, rest) := h
  cases hpair
  rfl

theorem le_of_word {k : Nat} (h : word k bs = some (n, rest)) :
    k ≤ bs.length := by
  by_contra hlt
  rw [word, if_pos (by omega)] at h
  exact absurd h (by simp)

theorem length_of_times {as : List α} (h : p.times n bs = some (as, rest)) : as.length = n := by
  induction n generalizing bs rest as with
  | zero =>
    rw [of_pure h]
    rfl
  | succ n ih =>
    obtain ⟨a, bs1, _, h1⟩ := of_bind h
    obtain ⟨as', bs2, h2, h3⟩ := of_bind h1
    rw [of_pure h3, length_cons, ih h2]

/-- A property of every value that a reader can return holds of all the values
of a counted read. -/
theorem forall_of_times {P : α → Prop} (hp : ∀ bs a rest, p bs = some (a, rest) → P a) {as : List α}
    (h : p.times n bs = some (as, rest)) : ∀ a ∈ as, P a := by
  induction n generalizing bs rest as with
  | zero =>
    rw [of_pure h]
    exact fun a ha => absurd ha not_mem_nil
  | succ n ih =>
    obtain ⟨a, bs1, h1, h2⟩ := of_bind h
    obtain ⟨as', bs2, h3, h4⟩ := of_bind h2
    rw [of_pure h4]
    intro x hx
    rcases mem_cons.mp hx with heq | hmem
    · rw [heq]
      exact hp bs a bs1 h1
    · exact ih h3 x hmem

end Reader

/-! ## Round trips -/

variable {α β : Type}

/-- Whatever follows `bs`, the reader consumes exactly `bs` and returns `a`. -/
def Reads (p : Reader α) (bs : Bytes) (a : α) : Prop :=
  ∀ rest, p (bs ++ rest) = some (a, rest)

namespace Reads

open Wire Reader

theorem pure (a : α) : Reads (Pure.pure a) [] a := fun _ => rfl

variable {p : Reader α} {bs : Bytes} {a : α}

theorem bind {f : α → Reader β} {bs' : Bytes} {b : β} (hp : Reads p bs a) (hf : Reads (f a) bs' b) :
    Reads (p >>= f) (bs ++ bs') b := by
  intro rest
  have hfst : p (bs ++ (bs' ++ rest)) = some (a, bs' ++ rest) := hp (bs' ++ rest)
  show (p (bs ++ bs' ++ rest)).bind (fun x => f x.1 x.2) = some (b, rest)
  rw [append_assoc, hfst]
  exact hf rest

theorem bind_nil {f : α → Reader β} {b : β} (hp : Reads p bs a) (hf : Reads (f a) [] b) :
    Reads (p >>= f) bs b := by
  have h := hp.bind hf
  rwa [append_nil] at h

theorem map (f : α → β) (hp : Reads p bs a) :
    Reads (f <$> p) bs (f a) := by
  intro rest
  show (p (bs ++ rest)).bind (fun x => some (f x.1, x.2)) = some (f a, rest)
  rw [hp rest]
  rfl

theorem eq_of_read {rest rest' : Bytes} {a' : α} (hp : Reads p bs a)
    (h : p (bs ++ rest) = some (a', rest')) : a' = a ∧ rest' = rest := by
  rw [hp rest] at h
  cases h
  exact ⟨rfl, rfl⟩

theorem eq_of_read_all {rest : Bytes} {a' : α} (hp : Reads p bs a) (h : p bs = some (a', rest)) :
    a' = a ∧ rest = [] := by
  rw [← append_nil bs] at h
  exact hp.eq_of_read h

theorem byte (b : UInt8) : Reads Reader.byte [b] b := fun _ => rfl

theorem word_decode {k : Nat} (h : bs.length = k) :
    Reads (Reader.word k) bs (decode bs) := by
  intro rest
  have hlen : ¬ (bs ++ rest).length < k := by
    rw [length_append]
    omega
  rw [Reader.word, if_neg hlen, take_left' h, drop_left' h]

theorem word {k n : Nat} (h : n < 256 ^ k) : Reads (Reader.word k) (encode k n) n := by
  have hread := word_decode (length_encode k n)
  rwa [decode_encode_of_lt h] at hread

theorem optional_pos {c : Prop} [Decidable c] {d : α} (hc : c) (hp : Reads p bs a) :
    Reads (optional c p d) bs a := by
  have h : optional c p d = p := if_pos hc
  rw [h]
  exact hp

theorem optional_neg {c : Prop} [Decidable c] (p : Reader α) (hc : ¬ c) (d : α) :
    Reads (optional c p d) [] d := by
  have h : optional c p d = Pure.pure d := if_neg hc
  rw [h]
  exact Reads.pure d

theorem times {p : Reader β} (out : α → Bytes) (load : α → β) :
    ∀ as : List α, (∀ a ∈ as, Reads p (out a) (load a)) →
      Reads (p.times as.length) (as.flatMap out) (as.map load)
  | [], _ => Reads.pure []
  | a :: as, h => by
    have hhead : Reads p (out a) (load a) := h a mem_cons_self
    have htail : Reads (p.times as.length) (as.flatMap out) (as.map load) :=
      times out load as fun b hb => h b (mem_cons_of_mem _ hb)
    rw [flatMap_cons]
    exact hhead.bind (htail.bind_nil (Reads.pure _))

end Reads

end Hostboot.Lib
