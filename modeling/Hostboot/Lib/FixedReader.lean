import Hostboot.Lib.Packed

/-!
# Readers of a fixed size

A reader of a packed record takes as many bytes as the record has, whatever they
are, and fails only when they are not there.  `Takes` says this together with
the value that is read, so that a record is walked with `Takes.bind`: what a
field of it holds is then a field of the bytes.
-/

namespace Hostboot.Lib

variable {α β : Type}

/-- The reader takes `n` bytes, and fails only when there are less. -/
def Takes (p : Reader α) (n : Nat) (value : Bytes → α) : Prop :=
  ∀ bs, p bs = if bs.length < n then none else some (value bs, bs.drop n)

namespace Takes

open Wire Reader

variable {p : Reader α} {n : Nat} {value : Bytes → α} {bs : Bytes}

theorem eq_none (h : Takes p n value) (hbs : bs.length < n) : p bs = none := by
  rw [h bs, if_pos hbs]

theorem eq_some (h : Takes p n value) (hbs : n ≤ bs.length) :
    p bs = some (value bs, bs.drop n) := by
  rw [h bs, if_neg (Nat.not_lt.mpr hbs)]

theorem pure (a : α) : Takes (Pure.pure a) 0 fun _ => a := fun bs => by
  rw [if_neg (Nat.not_lt_zero _), List.drop_zero]
  rfl

theorem bind {f : α → Reader β} {m : Nat} {value' : α → Bytes → β} (hp : Takes p n value)
    (hf : ∀ a, Takes (f a) m (value' a)) :
    Takes (p >>= f) (n + m) fun bs => value' (value bs) (bs.drop n) := by
  intro bs
  show (p bs).bind (fun x => f x.1 x.2) = _
  by_cases hbs : bs.length < n
  · rw [hp.eq_none hbs, if_pos (by omega), Option.bind_none]
  · rw [hp.eq_some (by omega), Option.bind_some, hf _ _, List.length_drop, List.drop_drop]
    by_cases hrest : bs.length < n + m
    · rw [if_pos (by omega), if_pos hrest]
    · rw [if_neg (by omega), if_neg hrest]

theorem bind_pure {b : α → β} (hp : Takes p n value) :
    Takes (p >>= fun a => Pure.pure (b a)) n fun bs => b (value bs) :=
  hp.bind fun a => Takes.pure (b a)

theorem map (f : α → β) (hp : Takes p n value) : Takes (f <$> p) n fun bs => f (value bs) :=
  hp.bind_pure

theorem byte : Takes Reader.byte 1 fun bs => bs.headD 0 := by
  intro bs
  cases bs with
  | nil => rfl
  | cons b bs => rw [if_neg (by rw [List.length_cons]; omega)]; rfl

theorem word (k : Nat) : Takes (Reader.word k) k fun bs => decode (bs.take k) := fun _ => rfl

theorem array (k : Nat) : Takes (Reader.array k) k fun bs => bs.take k := fun _ => rfl

theorem u16 : Takes Reader.u16 2 fun bs => UInt16.ofNat (decode (bs.take 2)) := (word 2).map _

theorem u32 : Takes Reader.u32 4 fun bs => UInt32.ofNat (decode (bs.take 4)) := (word 4).map _

theorem u64 : Takes Reader.u64 8 fun bs => UInt64.ofNat (decode (bs.take 8)) := (word 8).map _

end Takes

end Hostboot.Lib
