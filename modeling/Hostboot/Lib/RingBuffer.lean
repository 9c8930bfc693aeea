import Mathlib.Data.List.Basic
import Mathlib.Data.List.Nodup

/-!
# Ring buffers of blocks of different sizes

A ring buffer drops its oldest blocks to make room for a new one.  Two
structures describe it.

* `Ring next prev xs` is the circular doubly linked list of the addresses
  `xs`, oldest first.
* `Placed lo hi bs` says where the blocks `bs`, oldest first, lie in the bytes
  from `lo` up to `hi`: one above the other, and after one turn again from `lo`
  on, below the oldest block.

`room` is the free space that the next block would go to, and `keep` what
remains when blocks are dropped only as long as the space is too small.
-/

namespace Hostboot.Lib

open List

/-! ## Circular lists -/

section Ring

variable {α : Type*}

/-- Every address points to the following one and back, and the last one to
the first. -/
def Ring (next prev : α → α) (xs : List α) : Prop :=
  (∀ i a b, xs[i]? = some a → xs[i + 1]? = some b → next a = b ∧ prev b = a) ∧
    ∀ a b, xs.head? = some a → xs.getLast? = some b → next b = a ∧ prev a = b

namespace Ring

variable {next prev next' prev' : α → α} {xs : List α}

theorem nil : Ring next prev [] := by
  refine ⟨fun i a b ha => ?_, fun a b ha => ?_⟩
  · exact absurd ha (by simp)
  · exact absurd ha (by simp)

theorem singleton {a : α} (hnext : next a = a) (hprev : prev a = a) : Ring next prev [a] := by
  refine ⟨fun i b c hb hc => ?_, fun b c hb hc => ?_⟩
  · exact absurd hc (by simp)
  · rw [head?_singleton, Option.some.injEq] at hb
    rw [getLast?_singleton, Option.some.injEq] at hc
    rw [← hb, ← hc]
    exact ⟨hnext, hprev⟩

theorem congr (h : Ring next prev xs) (hnext : ∀ a ∈ xs, next' a = next a)
    (hprev : ∀ a ∈ xs, prev' a = prev a) : Ring next' prev' xs := by
  refine ⟨fun i a b ha hb => ?_, fun a b ha hb => ?_⟩
  · rw [hnext a (mem_of_getElem? ha), hprev b (mem_of_getElem? hb)]
    exact h.1 i a b ha hb
  · rw [hnext b (mem_of_getLast? hb), hprev a (mem_of_mem_head? ha)]
    exact h.2 a b ha hb

/-- A new last address: the old last one points to it, and the first one back
to it. -/
theorem append [DecidableEq α] {first last n : α} (h : Ring next prev xs) (hnodup : xs.Nodup)
    (hn : n ∉ xs) (hfirst : xs.head? = some first) (hlast : xs.getLast? = some last)
    (hnext : ∀ a, next' a = if a = last then n else if a = n then first else next a)
    (hprev : ∀ a, prev' a = if a = first then n else if a = n then last else prev a) :
    Ring next' prev' (xs ++ [n]) := by
  have hmemfirst := mem_of_mem_head? hfirst
  have hmemlast := mem_of_getLast? hlast
  have hnfirst : n ≠ first := fun heq => hn (heq ▸ hmemfirst)
  have hnlast : n ≠ last := fun heq => hn (heq ▸ hmemlast)
  refine ⟨fun i a b ha hb => ?_, fun a b ha hb => ?_⟩
  · by_cases hin : i + 1 < xs.length
    · rw [getElem?_append_left (by omega)] at ha
      rw [getElem?_append_left hin] at hb
      have hane : a ≠ n := fun heq => hn (heq ▸ mem_of_getElem? ha)
      have hbne : b ≠ n := fun heq => hn (heq ▸ mem_of_getElem? hb)
      have halast : a ≠ last := by
        intro heq
        rw [getLast?_eq_getElem?, ← heq, ← ha] at hlast
        have hidx := (getElem?_inj (by omega) hnodup).mp hlast
        omega
      have hbfirst : b ≠ first := by
        intro heq
        rw [head?_eq_getElem?, ← heq, ← hb] at hfirst
        have hidx := (getElem?_inj (by omega) hnodup).mp hfirst
        omega
      rw [hnext, if_neg halast, if_neg hane, hprev, if_neg hbfirst, if_neg hbne]
      exact h.1 i a b ha hb
    · have hlen : i + 1 = xs.length := by
        have hlt := (List.getElem?_eq_some_iff.mp hb).1
        rw [length_append, length_singleton] at hlt
        omega
      rw [getElem?_append_left (by omega)] at ha
      rw [hlen, getElem?_concat_length, Option.some.injEq] at hb
      have hal : a = last := by
        rw [getLast?_eq_getElem?, show xs.length - 1 = i by omega, ha,
          Option.some.injEq] at hlast
        exact hlast
      rw [← hb, hal, hnext, if_pos rfl, hprev, if_neg hnfirst, if_pos rfl]
      exact ⟨rfl, rfl⟩
  · rw [getLast?_concat, Option.some.injEq] at hb
    rw [head?_append, hfirst, Option.some_or, Option.some.injEq] at ha
    rw [← ha, ← hb, hnext, if_neg hnlast, if_pos rfl, hprev, if_pos rfl]
    exact ⟨rfl, rfl⟩

end Ring

end Ring

/-! ## Where the blocks lie -/

/-- A block: its first byte and its size. -/
abbrev Block : Type := Nat × Nat

/-- The blocks lie one above the other between `lo` and `hi`. -/
def Ascending (hi : Nat) : Nat → List Block → Prop
  | lo, [] => lo ≤ hi
  | lo, b :: bs => lo ≤ b.1 ∧ 0 < b.2 ∧ Ascending hi (b.1 + b.2) bs

namespace Ascending

variable {lo hi : Nat} {bs : List Block}

theorem le (h : Ascending hi lo bs) : lo ≤ hi := by
  induction bs generalizing lo with
  | nil => exact h
  | cons b bs ih =>
    have hrest := ih h.2.2
    have hlo := h.1
    omega

theorem mono_lo {lo' : Nat} (h : Ascending hi lo bs) (hle : lo' ≤ lo) : Ascending hi lo' bs := by
  cases bs with
  | nil => exact Nat.le_trans hle h
  | cons b bs => exact ⟨Nat.le_trans hle h.1, h.2⟩

theorem mono_hi {hi' : Nat} (h : Ascending hi lo bs) (hle : hi ≤ hi') : Ascending hi' lo bs := by
  induction bs generalizing lo with
  | nil => exact Nat.le_trans h hle
  | cons b bs ih => exact ⟨h.1, h.2.1, ih h.2.2⟩

theorem bounds (h : Ascending hi lo bs) {b : Block} (hb : b ∈ bs) :
    lo ≤ b.1 ∧ 0 < b.2 ∧ b.1 + b.2 ≤ hi := by
  induction bs generalizing lo with
  | nil => exact absurd hb not_mem_nil
  | cons c bs ih =>
    obtain ⟨hlo, hpos, hrest⟩ := h
    rcases mem_cons.mp hb with rfl | hmem
    · exact ⟨hlo, hpos, hrest.le⟩
    · have hbound := ih hrest hmem
      omega

theorem pairwise (h : Ascending hi lo bs) : bs.Pairwise fun a b => a.1 + a.2 ≤ b.1 := by
  induction bs generalizing lo with
  | nil => exact List.Pairwise.nil
  | cons b bs ih =>
    refine List.Pairwise.cons ?_ (ih h.2.2)
    intro c hc
    exact (h.2.2.bounds hc).1

theorem trim (h : Ascending hi lo bs) {b : Block} (hb : bs.getLast? = some b) :
    Ascending (b.1 + b.2) lo bs := by
  induction bs generalizing lo with
  | nil => exact absurd hb (by simp)
  | cons c bs ih =>
    refine ⟨h.1, h.2.1, ?_⟩
    cases bs with
    | nil =>
      rw [getLast?_singleton, Option.some.injEq] at hb
      rw [hb]
      exact Nat.le_refl _
    | cons d bs =>
      rw [getLast?_cons_cons] at hb
      exact ih h.2.2 hb

theorem snoc {mid x n : Nat} (h : Ascending mid lo bs) (hx : mid ≤ x) (hn : 0 < n)
    (hhi : x + n ≤ hi) : Ascending hi lo (bs ++ [(x, n)]) := by
  induction bs generalizing lo with
  | nil => exact ⟨Nat.le_trans h hx, hn, hhi⟩
  | cons b bs ih => exact ⟨h.1, h.2.1, ih h.2.2⟩

theorem first_lt_last (h : Ascending hi lo bs) {a b : Block} (ha : bs.head? = some a)
    (hb : bs.getLast? = some b) : a.1 < b.1 + b.2 := by
  cases bs with
  | nil => exact absurd ha (by simp)
  | cons c bs =>
    rw [head?_cons, Option.some.injEq] at ha
    obtain ⟨hlo, hpos, hrest⟩ := h.trim hb
    have hle := hrest.le
    rw [ha] at hpos hle
    omega

end Ascending

/-- The blocks of a ring buffer, oldest first: they lie one above the other,
or the later ones lie below the oldest one after a turn. -/
inductive Placed (lo hi : Nat) : List Block → Prop
  | straight {bs : List Block} : Ascending hi lo bs → Placed lo hi bs
  | wrapped {b : Block} {bs cs : List Block} : cs ≠ [] → Ascending hi b.1 (b :: bs) →
      Ascending b.1 lo cs → Placed lo hi (b :: bs ++ cs)

/-- The free space that the next block goes to, and its first byte.  A block
that does not fit above the last one goes to the bottom. -/
def room (lo hi need : Nat) (bs : List Block) : Nat × Nat :=
  match bs.head?, bs.getLast? with
  | some a, some b =>
    if a.1 < b.1 + b.2 then
      if need ≤ hi - (b.1 + b.2) then (hi - (b.1 + b.2), b.1 + b.2) else (a.1 - lo, lo)
    else (a.1 - (b.1 + b.2), b.1 + b.2)
  | _, _ => (hi - lo, lo)

namespace Placed

variable {lo hi need : Nat} {bs : List Block}

theorem tail {b : Block} (h : Placed lo hi (b :: bs)) : Placed lo hi bs := by
  generalize hcs : b :: bs = cs at h
  cases h with
  | straight hup =>
    rw [← hcs] at hup
    have hle := hup.1
    exact .straight (hup.2.2.mono_lo (by omega))
  | @wrapped c ds es hne hup hlow =>
    rw [cons_append, List.cons.injEq] at hcs
    rw [hcs.2]
    cases ds with
    | nil => exact .straight (hlow.mono_hi hup.le)
    | cons d ds =>
      have hd := hup.2.2
      have hle := hd.1
      exact .wrapped hne ⟨Nat.le_refl _, hd.2⟩ (hlow.mono_hi (by omega))

theorem bounds (h : Placed lo hi bs) {b : Block} (hb : b ∈ bs) :
    lo ≤ b.1 ∧ 0 < b.2 ∧ b.1 + b.2 ≤ hi := by
  cases h with
  | straight hup => exact hup.bounds hb
  | wrapped _ hup hlow =>
    have hmid := hlow.le
    have htop := hup.le
    rcases mem_append.mp hb with hin | hin
    · have hbound := hup.bounds hin
      omega
    · have hbound := hlow.bounds hin
      omega

theorem apart (h : Placed lo hi bs) :
    bs.Pairwise fun a b => a.1 + a.2 ≤ b.1 ∨ b.1 + b.2 ≤ a.1 := by
  cases h with
  | straight hup => exact hup.pairwise.imp fun hab => Or.inl hab
  | wrapped _ hup hlow =>
    refine pairwise_append.mpr ⟨hup.pairwise.imp fun hab => Or.inl hab,
      hlow.pairwise.imp fun hab => Or.inl hab, ?_⟩
    intro a ha b hb
    have habove := (hup.bounds ha).1
    have hbelow := (hlow.bounds hb).2.2
    exact Or.inr (by omega)

theorem nodup (h : Placed lo hi bs) : (bs.map Prod.fst).Nodup := by
  have hapart := h.apart
  have hbounds := fun b (hb : b ∈ bs) => h.bounds hb
  clear h
  induction bs with
  | nil => exact nodup_nil
  | cons b bs ih =>
    rw [map_cons, nodup_cons]
    obtain ⟨hfirst, hrest⟩ := pairwise_cons.mp hapart
    refine ⟨?_, ih hrest fun c hc => hbounds c (mem_cons_of_mem _ hc)⟩
    intro hmem
    obtain ⟨c, hc, heq⟩ := mem_map.mp hmem
    have hbpos := (hbounds b mem_cons_self).2.1
    have hcpos := (hbounds c (mem_cons_of_mem _ hc)).2.1
    rcases hfirst c hc with hab | hab
    · omega
    · omega

theorem insert (h : Placed lo hi bs) (hpos : 0 < need) (hfit : need ≤ (room lo hi need bs).1) :
    Placed lo hi (bs ++ [((room lo hi need bs).2, need)]) := by
  cases hhead : bs.head? with
  | none =>
    have hempty : bs = [] := head?_eq_none_iff.mp hhead
    rw [hempty] at hfit ⊢
    simp only [room, head?_nil] at hfit ⊢
    exact .straight ⟨Nat.le_refl _, hpos, by show lo + need ≤ hi; omega⟩
  | some a =>
    cases hlast : bs.getLast? with
    | none =>
      rw [getLast?_eq_none_iff] at hlast
      rw [hlast] at hhead
      exact absurd hhead (by simp)
    | some b =>
      have htop := h.bounds (mem_of_getLast? hlast)
      have hbottom := h.bounds (mem_of_mem_head? hhead)
      simp only [room, hhead, hlast] at hfit ⊢
      cases h with
      | straight hup =>
        have hlt := hup.first_lt_last hhead hlast
        rw [if_pos hlt] at hfit ⊢
        by_cases hend : need ≤ hi - (b.1 + b.2)
        · rw [if_pos hend]
          exact .straight ((hup.trim hlast).snoc (Nat.le_refl _) hpos (by omega))
        · rw [if_neg hend] at hfit ⊢
          cases bs with
          | nil => exact absurd hhead (by simp)
          | cons c bs =>
            rw [head?_cons, Option.some.injEq] at hhead
            rw [hhead] at hup ⊢
            exact .wrapped (by simp) ⟨Nat.le_refl _, hup.2⟩ ⟨Nat.le_refl _, hpos, by
              show lo + need ≤ a.1
              omega⟩
      | @wrapped c ds cs hne hup hlow =>
        rw [cons_append, head?_cons, Option.some.injEq] at hhead
        have hlast' : cs.getLast? = some b := by
          rw [getLast?_append_of_ne_nil _ hne] at hlast
          exact hlast
        have hbelow := (hlow.bounds (mem_of_getLast? hlast')).2.2
        rw [hhead] at hbelow
        rw [if_neg (by omega)] at hfit ⊢
        rw [append_assoc]
        refine .wrapped (by simp) hup ((hlow.trim hlast').snoc (Nat.le_refl _) hpos ?_)
        rw [hhead]
        omega

end Placed

end Hostboot.Lib
