import Mathlib

/-!
# Regions tiled by consecutive pieces

A piece is an address with a size class; `size` gives the bytes of a class.
`Tiles size a e l` says that the pieces of `l`, in this order, fill the bytes
from `a` to `e` without gap or overlap.  `Tiling size regions T` says that the
multiset `T` is made of one such list for each region.

An allocator that cuts a piece in two, or joins two neighbours, moves from one
tiling of its regions to another.  `Tiling.split` and `Tiling.merge` are these
two moves, `Tiling.next` finds the neighbour, and `Tiling.apart` says that two
pieces never overlap.
-/

namespace Hostboot.Lib

open List

variable {size : Nat → Nat}

/-- The pieces of the list fill the bytes from `a` to `e`. -/
inductive Tiles (size : Nat → Nat) : Nat → Nat → List (Nat × Nat) → Prop
  | nil (a : Nat) : Tiles size a a []
  | cons {a e b : Nat} {l : List (Nat × Nat)} :
      Tiles size (a + size b) e l → Tiles size a e ((a, b) :: l)

namespace Tiles

variable {a e : Nat} {l l' : List (Nat × Nat)}

theorem append {m : Nat} (h : Tiles size a m l) (h' : Tiles size m e l') :
    Tiles size a e (l ++ l') := by
  induction h with
  | nil => exact h'
  | cons _ ih => exact .cons (ih h')

theorem of_append (h : Tiles size a e (l ++ l')) :
    ∃ m, Tiles size a m l ∧ Tiles size m e l' := by
  induction l generalizing a with
  | nil => exact ⟨a, .nil a, h⟩
  | cons c l ih =>
    cases h with
    | cons hrest =>
      obtain ⟨m, hl, hl'⟩ := ih hrest
      exact ⟨m, .cons hl, hl'⟩

theorem le (h : Tiles size a e l) : a ≤ e := by
  induction h with
  | nil => exact le_rfl
  | cons _ ih => omega

theorem bounds (h : Tiles size a e l) {c : Nat × Nat} (hc : c ∈ l) :
    a ≤ c.1 ∧ c.1 + size c.2 ≤ e := by
  induction h with
  | nil => simp at hc
  | cons hrest ih =>
    rcases mem_cons.mp hc with rfl | hc
    · exact ⟨le_rfl, hrest.le⟩
    · have := ih hc
      omega

theorem sum_size (h : Tiles size a e l) :
    (l.map fun c => size c.2).sum = e - a := by
  induction h with
  | nil a => simp
  | cons hrest ih =>
    have hle := hrest.le
    rw [map_cons, sum_cons, ih]
    dsimp only
    omega

theorem pairwise (h : Tiles size a e l) :
    l.Pairwise fun c c' => c.1 + size c.2 ≤ c'.1 := by
  induction h with
  | nil => exact List.Pairwise.nil
  | cons hrest ih => exact List.Pairwise.cons (fun c hc => (hrest.bounds hc).1) ih

/-- Where a piece stands in the list, its address is the end of what is
before it. -/
theorem at_middle {x b : Nat} (h : Tiles size a e (l ++ (x, b) :: l')) :
    Tiles size a x l ∧ Tiles size (x + size b) e l' := by
  obtain ⟨m, hl, hl'⟩ := of_append h
  cases hl' with
  | cons hrest => exact ⟨hl, hrest⟩

end Tiles

/-- The multiset of pieces is made of one tiling for each region. -/
inductive Tiling (size : Nat → Nat) : List (Nat × Nat) → Multiset (Nat × Nat) → Prop
  | nil : Tiling size [] 0
  | cons {a e : Nat} {l : List (Nat × Nat)} {regions : List (Nat × Nat)}
      {T : Multiset (Nat × Nat)} :
      Tiles size a e l → Tiling size regions T → Tiling size ((a, e) :: regions) (↑l + T)

namespace Tiling

variable {regions : List (Nat × Nat)} {T : Multiset (Nat × Nat)}

theorem bounds (h : Tiling size regions T) {c : Nat × Nat} (hc : c ∈ T) :
    ∃ r ∈ regions, r.1 ≤ c.1 ∧ c.1 + size c.2 ≤ r.2 := by
  induction h with
  | nil => simp at hc
  | cons htiles _ ih =>
    rw [Multiset.mem_add, Multiset.mem_coe] at hc
    rcases hc with hc | hc
    · exact ⟨_, mem_cons_self, htiles.bounds hc⟩
    · obtain ⟨r, hr, hb⟩ := ih hc
      exact ⟨r, mem_cons_of_mem _ hr, hb⟩

theorem sum_size (h : Tiling size regions T) :
    (T.map fun c => size c.2).sum = (regions.map fun r => r.2 - r.1).sum := by
  induction h with
  | nil => rfl
  | cons htiles _ ih =>
    rw [Multiset.map_add, Multiset.sum_add, ih, Multiset.map_coe, Multiset.sum_coe,
      htiles.sum_size, map_cons, sum_cons]

theorem perm {regions' : List (Nat × Nat)} (h : Tiling size regions T)
    (hperm : regions.Perm regions') : Tiling size regions' T := by
  induction hperm generalizing T with
  | nil => exact h
  | cons r _ ih =>
    cases h with
    | cons htiles hrest => exact .cons htiles (ih hrest)
  | swap r r' rs =>
    cases h with
    | cons htiles hrest =>
      cases hrest with
      | @cons _ _ l' _ T' htiles' hrest' =>
        rw [add_left_comm]
        exact .cons htiles' (.cons htiles hrest')
  | trans _ _ ih ih' => exact ih' (ih h)

theorem next (h : Tiling size regions T) {x b : Nat} (hc : (x, b) ∈ T) :
    ∃ r ∈ regions, r.1 ≤ x ∧ x + size b ≤ r.2 ∧
      (x + size b < r.2 → ∃ b', (x + size b, b') ∈ T) := by
  induction h with
  | nil => simp at hc
  | @cons a e l _ _ htiles _ ih =>
    rw [Multiset.mem_add, Multiset.mem_coe] at hc
    rcases hc with hc | hc
    · have hb := htiles.bounds hc
      refine ⟨(a, e), mem_cons_self, hb.1, hb.2, fun hlt => ?_⟩
      obtain ⟨l1, l2, rfl⟩ := append_of_mem hc
      obtain ⟨-, hrest⟩ := htiles.at_middle
      cases hrest with
      | nil => simp at hlt
      | @cons _ _ b' l' _ => exact ⟨b', by simp⟩
    · obtain ⟨r, hr, h1, h2, h3⟩ := ih hc
      refine ⟨r, mem_cons_of_mem _ hr, h1, h2, fun hlt => ?_⟩
      obtain ⟨b', hb'⟩ := h3 hlt
      exact ⟨b', by simp [hb']⟩

theorem coe_middle_add (c : Nat × Nat) (l1 l2 : List (Nat × Nat)) (T' : Multiset (Nat × Nat)) :
    (↑(l1 ++ c :: l2) : Multiset (Nat × Nat)) + T' = c ::ₘ (↑(l1 ++ l2) + T') := by
  rw [← Multiset.cons_add, Multiset.cons_coe]
  exact congrArg (· + T') (Multiset.coe_eq_coe.mpr perm_middle)

theorem split (h : Tiling size regions T) {x b b1 b2 : Nat} {R : Multiset (Nat × Nat)}
    (hT : T = (x, b) ::ₘ R) (hsize : size b = size b1 + size b2) :
    Tiling size regions ((x, b1) ::ₘ (x + size b1, b2) ::ₘ R) := by
  induction h generalizing R with
  | nil => simp at hT
  | @cons a e l rs T' htiles hrest ih =>
    have hmem : (x, b) ∈ (↑l : Multiset (Nat × Nat)) + T' := by simp [hT]
    rw [Multiset.mem_add, Multiset.mem_coe] at hmem
    rcases hmem with hc | hc
    · obtain ⟨l1, l2, rfl⟩ := append_of_mem hc
      obtain ⟨hl, hr⟩ := htiles.at_middle
      have hnew : Tiles size a e (l1 ++ (x, b1) :: (x + size b1, b2) :: l2) := by
        refine hl.append (.cons (.cons ?_))
        rwa [Nat.add_assoc, ← hsize]
      have hR : R = ↑(l1 ++ l2) + T' :=
        (Multiset.cons_inj_right (x, b)).mp (by rw [← hT, coe_middle_add])
      have hsum : (x, b1) ::ₘ (x + size b1, b2) ::ₘ R
          = ↑(l1 ++ (x, b1) :: (x + size b1, b2) :: l2) + T' := by
        rw [hR, coe_middle_add, coe_middle_add]
      rw [hsum]
      exact .cons hnew hrest
    · obtain ⟨T1, rfl⟩ := Multiset.exists_cons_of_mem hc
      have hR : R = ↑l + T1 := by
        refine (Multiset.cons_inj_right (x, b)).mp ?_
        rw [← hT, Multiset.add_cons]
      rw [hR, ← Multiset.add_cons, ← Multiset.add_cons]
      exact .cons htiles (ih rfl)

theorem merge (h : Tiling size regions T) (hnodup : (T.map Prod.fst).Nodup)
    {x b b' b'' : Nat} {R : Multiset (Nat × Nat)}
    (hT : T = (x, b) ::ₘ (x + size b, b') ::ₘ R)
    (hin : ∀ r ∈ regions, r.1 ≤ x → x + size b ≤ r.2 → x + size b < r.2)
    (hsize : size b'' = size b + size b') : Tiling size regions ((x, b'') ::ₘ R) := by
  induction h generalizing R with
  | nil => simp at hT
  | @cons a e l rs T' htiles hrest ih =>
    have hmem : (x, b) ∈ (↑l : Multiset (Nat × Nat)) + T' := by simp [hT]
    -- The piece above is the neighbour in `T`.
    have hneighbour : ∀ b2, (x + size b, b2) ∈ (↑l : Multiset (Nat × Nat)) + T' → b2 = b' := by
      intro b2 h1
      have h2 : (x + size b, b') ∈ (↑l : Multiset (Nat × Nat)) + T' := by
        simp only [hT, Multiset.mem_cons, true_or, or_true]
      exact congrArg Prod.snd (Multiset.inj_on_of_nodup_map hnodup _ h1 _ h2 rfl)
    rw [Multiset.mem_add, Multiset.mem_coe] at hmem
    rcases hmem with hc | hc
    · have hbounds := htiles.bounds hc
      have hlt := hin (a, e) mem_cons_self hbounds.1 hbounds.2
      obtain ⟨l1, l2, rfl⟩ := append_of_mem hc
      obtain ⟨hl, hr⟩ := htiles.at_middle
      cases hr with
      | nil => simp at hlt
      | @cons _ _ b2 l3 hr' =>
        obtain rfl := hneighbour b2 (by simp)
        have hnew : Tiles size a e (l1 ++ (x, b'') :: l3) := by
          refine hl.append (.cons ?_)
          rwa [hsize, ← Nat.add_assoc]
        have hR : R = ↑(l1 ++ l3) + T' := by
          refine (Multiset.cons_inj_right (x + size b, b2)).mp
            ((Multiset.cons_inj_right (x, b)).mp ?_)
          rw [← hT, coe_middle_add, coe_middle_add]
        have hsum : (x, b'') ::ₘ R = ↑(l1 ++ (x, b'') :: l3) + T' := by rw [hR, coe_middle_add]
        rw [hsum]
        exact .cons hnew hrest
    · -- The pair lies in another region: the neighbour is not in `l` either.
      have hnodup' : (T'.map Prod.fst).Nodup := by
        rw [Multiset.map_add] at hnodup
        exact (Multiset.nodup_add.mp hnodup).2.1
      have hin' : ∀ r ∈ rs, r.1 ≤ x → x + size b ≤ r.2 → x + size b < r.2 :=
        fun r hr => hin r (mem_cons_of_mem _ hr)
      obtain ⟨r, hr, h1, h2, h3⟩ := hrest.next hc
      obtain ⟨b2, hb2⟩ := h3 (hin' r hr h1 h2)
      obtain rfl := hneighbour b2 (by simp [hb2])
      obtain ⟨T1, hT1⟩ := Multiset.exists_cons_of_mem hc
      have hne : (x + size b, b2) ≠ (x, b) ∨ (x + size b, b2) ∈ T1 := by
        by_cases heq : (x + size b, b2) = (x, b)
        · right
          have hcount : 2 ≤ Multiset.count (x, b) ((↑l : Multiset (Nat × Nat)) + T') := by
            rw [hT, heq]
            simp
          have hone := Multiset.nodup_iff_count_le_one.mp
            (Multiset.Nodup.of_map Prod.fst hnodup) (x, b)
          omega
        · exact Or.inl heq
      have hmem1 : (x + size b, b2) ∈ T1 := by
        rcases hne with hne | hmem
        · rw [hT1, Multiset.mem_cons] at hb2
          exact hb2.resolve_left hne
        · exact hmem
      obtain ⟨T2, hT2⟩ := Multiset.exists_cons_of_mem hmem1
      subst hT1 hT2
      have hR : R = ↑l + T2 := by
        refine (Multiset.cons_inj_right (x + size b, b2)).mp
          ((Multiset.cons_inj_right (x, b)).mp ?_)
        rw [← hT, Multiset.add_cons, Multiset.add_cons]
      rw [hR, ← Multiset.add_cons]
      exact .cons htiles (ih hnodup' rfl hin')

theorem add_region (h : Tiling size regions T) {a e : Nat} {l : List (Nat × Nat)}
    (hl : Tiles size a e l) : Tiling size ((a, e) :: regions) (↑l + T) :=
  .cons hl h

theorem extend {a e : Nat} (h : Tiling size ((a, e) :: regions) T) (b : Nat) :
    Tiling size ((a, e + size b) :: regions) ((e, b) ::ₘ T) := by
  cases h with
  | @cons _ _ l _ T' htiles hrest =>
    have hmore : Tiles size a (e + size b) (l ++ [(e, b)]) := htiles.append (.cons (.nil _))
    have heq : (e, b) ::ₘ (↑l + T') = ↑(l ++ [(e, b)]) + T' := by
      rw [← Multiset.coe_add, ← Multiset.cons_coe, Multiset.coe_nil, Multiset.add_cons,
        Multiset.cons_add, add_zero]
    rw [heq]
    exact .cons hmore hrest

/-- A number that divides the starts of the regions and the sizes divides the
address of every piece. -/
theorem dvd (h : Tiling size regions T) {k : Nat} (hregions : ∀ r ∈ regions, k ∣ r.1)
    (hsize : ∀ c ∈ T, k ∣ size c.2) {c : Nat × Nat} (hc : c ∈ T) : k ∣ c.1 := by
  induction h with
  | nil => simp at hc
  | @cons a e l rs T' htiles _ ih =>
    rw [Multiset.mem_add, Multiset.mem_coe] at hc
    rcases hc with hc | hc
    · have ha : k ∣ a := hregions (a, e) mem_cons_self
      have hl : ∀ c ∈ l, k ∣ size c.2 := fun c hc => hsize c (by simp [hc])
      clear ih hregions hsize
      induction htiles with
      | nil => simp at hc
      | @cons a e b l _ ih =>
        have hb : k ∣ size b := hl (a, b) mem_cons_self
        rcases mem_cons.mp hc with rfl | hc
        · exact ha
        · exact ih hc (dvd_add ha hb) fun c hc => hl c (mem_cons_of_mem _ hc)
    · exact ih (fun r hr => hregions r (mem_cons_of_mem _ hr))
        (fun c hc => hsize c (by simp [hc])) hc

/-- In regions that do not overlap, the pieces start at different addresses
and do not overlap. -/
theorem apart (h : Tiling size regions T) (hpos : ∀ c ∈ T, 0 < size c.2)
    (hregions : regions.Pairwise fun r r' => r.2 ≤ r'.1 ∨ r'.2 ≤ r.1) :
    (T.map Prod.fst).Nodup ∧
      ∀ c ∈ T, ∀ c' ∈ T, c.1 ≠ c'.1 → c.1 + size c.2 ≤ c'.1 ∨ c'.1 + size c'.2 ≤ c.1 := by
  induction h with
  | nil => simp
  | @cons a e l rs T' htiles hrest ih =>
    obtain ⟨hhead, htail⟩ := pairwise_cons.mp hregions
    obtain ⟨ihnodup, ihapart⟩ := ih (fun c hc => hpos c (by simp [hc])) htail
    have hposl : ∀ c ∈ l, 0 < size c.2 := fun c hc => hpos c (by simp [hc])
    have hcross : ∀ c ∈ l, ∀ c' ∈ T', c.1 + size c.2 ≤ c'.1 ∨ c'.1 + size c'.2 ≤ c.1 := by
      intro c hc c' hc'
      have h1 := htiles.bounds hc
      obtain ⟨r, hr, h2, h3⟩ := hrest.bounds hc'
      rcases hhead r hr with h4 | h4
      · left; dsimp only at h4; omega
      · right; dsimp only at h4; omega
    constructor
    · rw [Multiset.map_add, Multiset.nodup_add]
      refine ⟨?_, ihnodup, ?_⟩
      · rw [Multiset.map_coe, Multiset.coe_nodup]
        refine List.Pairwise.map _ ?_ (List.Pairwise.and_mem.mp htiles.pairwise)
        rintro c c' ⟨hc, _, hle⟩
        have := hposl c hc
        omega
      · rw [Multiset.disjoint_left]
        intro x hx hx'
        obtain ⟨c, hc, rfl⟩ := Multiset.mem_map.mp hx
        obtain ⟨c', hc', heq⟩ := Multiset.mem_map.mp hx'
        rw [Multiset.mem_coe] at hc
        have h1 := hposl c hc
        have h2 := hpos c' (by simp [hc'])
        rcases hcross c hc c' hc' with h | h <;> omega
    · intro c hc c' hc' hne
      rw [Multiset.mem_add, Multiset.mem_coe] at hc hc'
      rcases hc with hc | hc <;> rcases hc' with hc' | hc'
      · obtain ⟨i, hi, rfl⟩ := mem_iff_getElem.mp hc
        obtain ⟨j, hj, rfl⟩ := mem_iff_getElem.mp hc'
        have hpairs := pairwise_iff_getElem.mp htiles.pairwise
        rcases Nat.lt_trichotomy i j with hlt | heq | hgt
        · exact Or.inl (hpairs i j hi hj hlt)
        · subst heq
          exact absurd rfl hne
        · exact Or.inr (hpairs j i hj hi hgt)
      · exact hcross c hc c' hc'
      · exact (hcross c' hc' c hc).symm
      · exact ihapart c hc c' hc' hne

end Tiling

end Hostboot.Lib
