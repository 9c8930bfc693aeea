import Hostboot.Libc.PrintfOutput

/-!
# The buffer of `display_number`

`display_number` collects the digits of a number in an array of 64 characters.
The digits themselves fit, also in base 2, but the zeros of a precision and of a
field go into the same array, and nothing limits these two.
`displayNumber_fits_iff` says when the array is large enough.
-/

namespace Hostboot.Libc

variable {f : FormatOptions} {output : List UInt8} {n : Nat}

/-- `output[len++] = c;` -/
def store (output : List UInt8) (c : UInt8) : Option (List UInt8) :=
  if output.length < 64 then some (output ++ [c]) else none

theorem fillZeros_eq_foldlM (h : output.length ≤ 64) : fillZeros output n =
    (List.replicate (n - output.length) (digit 0)).foldlM store output := by
  induction hk : n - output.length generalizing output with
  | zero => simp [fillZeros, hk, show ¬ output.length < n by omega]
  | succ k ih =>
    rw [List.replicate_succ, List.foldlM_cons, store]
    by_cases hlt : output.length < 64
    · have hlen : (output ++ [digit 0]).length = output.length + 1 := by simp
      rw [if_pos hlt, Option.bind_eq_bind, Option.bind_some,
        ← ih (by omega) (by rw [hlen]; omega)]
      unfold fillZeros
      rw [hlen, hk, show n - (output.length + 1) = k by omega, List.replicate_succ,
        List.append_assoc, List.singleton_append]
      exact if_congr (by omega) rfl rfl
    · rw [if_neg hlt]
      exact if_pos (by omega)

theorem fillZeros_ne_none_iff (h : output.length ≤ 64) :
    fillZeros output n ≠ none ↔ n ≤ 64 := by
  unfold fillZeros
  split
  · rename_i hover
    exact iff_of_false (fun h => h rfl) (by omega)
  · rename_i hfits
    exact iff_of_true (Option.some_ne_none _) (by omega)

theorem length_fillZeros {padded : List UInt8} (h : fillZeros output n = some padded) :
    padded.length = max output.length n := by
  unfold fillZeros at h
  split at h
  · cases h
  · rw [← Option.some.inj h, List.length_append, List.length_replicate]
    omega

theorem base_ge_two (t : Types) : 2 ≤ baseOf t := by
  cases t <;> decide

theorem signOf_lt (f : FormatOptions) (number : UInt64) :
    (signOf f number.toNat).2 < 2 ^ 64 := by
  have hlt := number.toNat_lt
  unfold signOf
  split
  · split
    · dsimp only
      omega
    · split
      · exact hlt
      · split <;> exact hlt
  · exact hlt

theorem convertNumberToAscii_fits {number base : Nat} (hbase : 2 ≤ base)
    (hnumber : number < 2 ^ 64) :
    ∃ output, convertNumberToAscii number base = some output ∧ output.length ≤ 64 := by
  refine ⟨_, convertNumberToAscii_eq hbase hnumber, ?_⟩
  split
  · decide
  · rw [List.length_map]
    exact (Nat.digits_length_le_iff (by omega) number).mpr
      (hnumber.trans_le (Nat.pow_le_pow_left hbase 64))

/-- What stands in front of the digits, and is not kept in the buffer. -/
def frontLength (f : FormatOptions) (number : UInt64) : Nat :=
  (signOf f number.toNat).1.length + (specialOf f).length

/-- `display_number` stays inside of its buffer exactly when the precision is at most 64 and a
field of zeros needs no more than 64 of them. -/
theorem displayNumber_fits_iff (f : FormatOptions) (number : UInt64) :
    displayNumber f number.toNat ≠ none ↔
      f.precision ≤ 64 ∧ (f.flags.ZERO_PAD = true → f.field_width ≤ 64 + frontLength f number) := by
  obtain ⟨output, houtput, hlen⟩ :=
    convertNumberToAscii_fits (base_ge_two f.type) (signOf_lt f number)
  have hfront : frontLength f number =
    (signOf f number.toNat).1.length + (specialOf f).length := rfl
  unfold displayNumber
  simp only [houtput, Option.bind_eq_bind, Option.bind_some]
  cases hprecision : fillZeros output f.precision with
  | none =>
    refine iff_of_false (fun h => h rfl) fun h => ?_
    exact (fillZeros_ne_none_iff hlen).mpr h.1 hprecision
  | some filled =>
    have hle : f.precision ≤ 64 :=
      (fillZeros_ne_none_iff hlen).mp (by rw [hprecision]; exact Option.some_ne_none _)
    have hfilled : filled.length ≤ 64 := by
      rw [length_fillZeros hprecision]
      exact max_le hlen hle
    simp only [Option.bind_some, zeroPad]
    cases hpad : f.flags.ZERO_PAD with
    | false => simp [hle]
    | true =>
      -- the field holds the front, the digits and the zeros
      have hzeros := @fillZeros_ne_none_iff filled (filled.length + (f.field_width -
        (filled.length + (signOf f number.toNat).1.length + (specialOf f).length))) hfilled
      simp only [if_true, hle, true_and, forall_const]
      cases hfill : fillZeros filled (filled.length + (f.field_width -
          (filled.length + (signOf f number.toNat).1.length + (specialOf f).length))) with
      | none =>
        rw [hfill] at hzeros
        have hover : ¬ _ := fun hfits => hzeros.mpr hfits rfl
        exact iff_of_false (fun h => h rfl) fun h => hover (by omega)
      | some padded =>
        rw [hfill] at hzeros
        have hfits := hzeros.mp (Option.some_ne_none _)
        exact iff_of_true (Option.some_ne_none _) (by omega)

/-- `%065d` writes a field of 65 zeros. -/
theorem displayNumber_overflow : ¬ ∀ (fmt : List UInt8) (number : UInt64),
    displayNumber (parseFormatOptions fmt).1 number.toNat ≠ none := by
  intro h
  have hnone : displayNumber (parseFormatOptions ("065d".toList.map ch)).1 0 = none := by decide
  exact h ("065d".toList.map ch) 0 hnone

end Hostboot.Libc
