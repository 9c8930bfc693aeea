import Hostboot.Lib.LinkedQueue
import Hostboot.Lib.Run
import Hostboot.Lib.StableOrder
import Hostboot.Util.Containers
import Mathlib.Algebra.Group.Nat.Defs
import Mathlib.Data.Nat.Basic
import Mathlib.Logic.Function.Basic

/-!
# The queues in order of a key

`Util::Locked::PQueue` of `src/include/util/locked/pqueue.H` and the `Queue` that it derives
from.  The nodes carry their links, a null pointer is 0, and the element of the least key is
at the tail.  `insert` puts the node at the head and lets it sink (`bubbleUp`), and
`remove_if` takes the tail when its key is due.

`Queue::remove` also takes the tail, but it leaves the link of the new tail behind, so that
the next `insert` may walk on into the node that is gone.  It does no harm on a queue of one
element.
-/

namespace Hostboot.Util.Locked

open Hostboot.Lib List
open Function (update update_of_ne update_self)

variable {κ : Type*}

/-! ## The functions of the source -/

/-- A queue, with the fields of all nodes. -/
structure PQueue (κ : Type*) where
  head : Nat
  tail : Nat
  count : Nat
  next : Nat → Nat
  prev : Nat → Nat
  key : Nat → κ

namespace PQueue

/-- `n->next = p`. -/
def setNext (q : PQueue κ) (n p : Nat) : PQueue κ := { q with next := update q.next n p }

/-- `n->prev = p`. -/
def setPrev (q : PQueue κ) (n p : Nat) : PQueue κ := { q with prev := update q.prev n p }

/-- In the loop of `bubbleUp`: the ends, where the item or the node behind it is one. -/
def swapEnds (q : PQueue κ) (item : Nat) : PQueue κ :=
  let q := if q.head = item then { q with head := q.next item } else q
  if q.tail = q.next item then { q with tail := item } else q

/-- In the loop of `bubbleUp`: the item in front of the node behind `temp`. -/
def linkBehind (q : PQueue κ) (item temp : Nat) : PQueue κ :=
  if q.next temp ≠ 0 then
    let q := q.setPrev (q.next temp) item
    q.setNext item (q.next (q.next item))
  else q.setNext item 0

/-- In the loop of `bubbleUp`: `temp` behind the node in front of the item. -/
def linkBefore (q : PQueue κ) (item temp : Nat) : PQueue κ :=
  if q.prev item ≠ 0 then
    let q := q.setNext (q.prev item) temp
    q.setPrev temp (q.prev item)
  else q.setPrev temp 0

/-- The loop of `bubbleUp` behind its two tests: the item and the node behind it change
places. -/
def swap (q : PQueue κ) (item : Nat) : PQueue κ :=
  let q := q.swapEnds item
  let temp := q.next item
  let q := q.linkBehind item temp
  let q := q.linkBefore item temp
  (q.setNext temp item).setPrev item temp

section

variable [LinearOrder κ]

/-- `bubbleUp`, for a number of turns of its loop. -/
def bubbleUp : Nat → PQueue κ → Nat → Option (PQueue κ)
  | 0, _, _ => none
  | fuel + 1, q, item =>
    if q.next item = 0 then some q
    else if q.key (q.next item) ≤ q.key item then some q
    else bubbleUp fuel (q.swap item) item

def insert (fuel : Nat) (q : PQueue κ) (item : Nat) : Option (PQueue κ) :=
  if q.head = 0 then
    let q := (q.setPrev item 0).setNext item 0
    some { q with head := item, tail := item }
  else
    let q := q.setPrev item 0
    let q := q.setNext item q.head
    let q := q.setPrev q.head item
    let q := { q with head := item }
    bubbleUp fuel q item

/-- `remove_if`: the element, a null pointer where there is none, and the queue. -/
def removeIf (q : PQueue κ) (limit : κ) : Nat × PQueue κ :=
  if q.tail ≠ 0 ∧ q.key q.tail ≤ limit then
    let item := q.tail
    let q := if q.head = q.tail then { q with head := 0, tail := 0 } else { q with tail := q.prev item }
    let q := if q.prev item ≠ 0 then q.setNext (q.prev item) 0 else q
    (item, q)
  else (0, q)

end

/-- `Queue::remove`. -/
def remove (q : PQueue κ) : Nat × PQueue κ :=
  if q.tail ≠ 0 then
    let item := q.tail
    let q := if q.head = q.tail then { q with head := 0, tail := 0 } else { q with tail := q.prev item }
    (item, { q with count := (q.count + 2 ^ 64 - 1) % 2 ^ 64 })
  else (0, q)

def front (q : PQueue κ) : Nat := q.tail

/-- An empty queue. -/
def new (key : Nat → κ) : PQueue κ := ⟨0, 0, 0, fun _ => 0, fun _ => 0, key⟩

end PQueue

/-! ## Queues in order -/

/-- The pointers of the queue lead through the nodes `l` from the head to the tail, both
ways. -/
structure Links (q : PQueue κ) (l : List Nat) : Prop where
  nonnull : 0 ∉ l
  nodup : l.Nodup
  head : q.head = l.headD 0
  tail : q.tail = l.getLastD 0
  linked : Linked q.next q.prev 0 l 0

/-- The queue is linked through its elements, in order of their keys and of their
arrival. -/
def Good [LinearOrder κ] (q : PQueue κ) (arrivals : List Nat) : Prop :=
  ∃ l, Links q l ∧ Ordered q.key l arrivals

variable {q q' : PQueue κ} {l l1 l2 arrivals : List Nat} {item temp : Nat}

theorem Links.head_ne_zero (h : Links q l) : q.head ≠ 0 ↔ l ≠ [] := by
  rw [h.head]
  cases l with
  | nil => simp
  | cons a l =>
    have ha : a ≠ 0 := fun heq => h.nonnull (heq ▸ mem_cons_self)
    simp [ha]

/-! ## `bubbleUp` -/

theorem linkBehind_eq {c : Nat} (htemp : q.next item = temp) (hc : q.next temp = c) :
    q.linkBehind item temp = { q with
      next := update q.next item c
      prev := if c ≠ 0 then update q.prev c item else q.prev } := by
  unfold PQueue.linkBehind
  rw [hc]
  by_cases hzero : c = 0
  · rw [if_neg (not_not.mpr hzero), if_neg (not_not.mpr hzero), hzero]
    rfl
  · rw [if_pos hzero, if_pos hzero]
    simp only [PQueue.setNext, PQueue.setPrev, htemp, hc]

theorem linkBefore_eq {p : Nat} (hp : q.prev item = p) :
    q.linkBefore item temp = { q with
      next := if p ≠ 0 then update q.next p temp else q.next
      prev := update q.prev temp p } := by
  unfold PQueue.linkBefore
  rw [hp]
  by_cases hzero : p = 0
  · rw [if_neg (not_not.mpr hzero), if_neg (not_not.mpr hzero), hzero]
    rfl
  · rw [if_pos hzero, if_pos hzero]
    simp only [PQueue.setNext, PQueue.setPrev, hp]

/-- The queue after an item that stands behind `p` has changed places with `temp`, which
stands in front of `c`. -/
theorem swap_eq {p c : Nat} (htemp : q.next item = temp) (hc : q.next temp = c)
    (hp : q.prev item = p) (hci : c ≠ item) :
    q.swap item = { q with
      head := if q.head = item then temp else q.head
      tail := if q.tail = temp then item else q.tail
      next := update (if p ≠ 0 then
          update (update q.next item c) p temp
        else update q.next item c) temp item
      prev := update (update
        (if c ≠ 0 then update q.prev c item else q.prev) temp p) item temp } := by
  have hends : q.swapEnds item = { q with
      head := if q.head = item then temp else q.head
      tail := if q.tail = temp then item else q.tail } := by
    unfold PQueue.swapEnds
    rw [htemp]
    by_cases hhead : q.head = item <;> by_cases htail : q.tail = temp <;>
      simp [hhead, htail, htemp]
  have hitem : (q.swapEnds item).next item = temp := by
    rw [hends]
    exact htemp
  have hnext : (q.swapEnds item).next temp = c := by
    rw [hends]
    exact hc
  have hbehind : (q.swapEnds item).linkBehind item temp = { q.swapEnds item with
      next := update q.next item c
      prev := if c ≠ 0 then update q.prev c item else q.prev } := by
    rw [linkBehind_eq hitem hnext, hends]
  have hprev : ((q.swapEnds item).linkBehind item temp).prev item = p := by
    rw [hbehind]
    dsimp only
    split_ifs
    · rw [update_of_ne hci.symm, hp]
    · exact hp
  unfold PQueue.swap
  dsimp only
  rw [hitem, linkBefore_eq hprev, hbehind, hends]
  rfl

/-- The pointers after an item between `p` and `temp` has changed places with `temp`, which
stands in front of `c`. -/
structure Swapped (q q' : PQueue κ) (item temp p c : Nat) : Prop where
  head : q'.head = if q.head = item then temp else q.head
  tail : q'.tail = if q.tail = temp then item else q.tail
  key : q'.key = q.key
  next_temp : q'.next temp = item
  next_item : q'.next item = c
  next_before : p ≠ 0 → q'.next p = temp
  next_of_ne : ∀ x, x ≠ temp → x ≠ item → x ≠ p → q'.next x = q.next x
  prev_item : q'.prev item = temp
  prev_temp : q'.prev temp = p
  prev_behind : c ≠ 0 → q'.prev c = item
  prev_of_ne : ∀ x, x ≠ item → x ≠ temp → x ≠ c → q'.prev x = q.prev x

theorem swapped {p c : Nat} (htemp : q.next item = temp) (hc : q.next temp = c)
    (hp : q.prev item = p) (hit : item ≠ temp) (hci : c ≠ item) (hct : c ≠ temp) (hpi : p ≠ item)
    (hpt : p ≠ temp) : Swapped q (q.swap item) item temp p c := by
  rw [swap_eq htemp hc hp hci]
  constructor
  · rfl
  · rfl
  · rfl
  · exact update_self _ _ _
  · dsimp only
    rw [update_of_ne hit]
    split_ifs
    · rw [update_of_ne hpi.symm, update_self]
    · rw [update_self]
  · intro hzero
    dsimp only
    rw [update_of_ne hpt, if_pos hzero, update_self]
  · intro x hxt hxi hxp
    dsimp only
    rw [update_of_ne hxt]
    split_ifs
    · rw [update_of_ne hxp, update_of_ne hxi]
    · rw [update_of_ne hxi]
  · exact update_self _ _ _
  · dsimp only
    rw [update_of_ne hit.symm, update_self]
  · intro hzero
    dsimp only
    rw [update_of_ne hci, update_of_ne hct, if_pos hzero, update_self]
  · intro x hxi hxt hxc
    dsimp only
    rw [update_of_ne hxi, update_of_ne hxt]
    split_ifs
    · rw [update_of_ne hxc]
    · rfl

theorem getLastD_append (l1 l2 : List Nat) (p : Nat) :
    (l1 ++ l2).getLastD p = l2.getLastD (l1.getLastD p) := by
  simp only [getLastD_eq_getLast?, getLast?_append]
  cases l2.getLast? <;> rfl

theorem Links.swap (h : Links q (l1 ++ item :: temp :: l2)) :
    Links (q.swap item) (l1 ++ temp :: item :: l2) := by
  obtain ⟨hbefore, hp, hnext, -, hc, hbehind⟩ := linked_append_iff.mp h.linked
  have htemp : q.next item = temp := hnext
  have hperm : (l1 ++ temp :: item :: l2).Perm (l1 ++ item :: temp :: l2) :=
    (List.Perm.swap item temp l2).append_left l1
  obtain ⟨hnodup1, hnodup', hapart⟩ := nodup_append.mp h.nodup
  obtain ⟨hitem, hnodup2⟩ := nodup_cons.mp hnodup'
  obtain ⟨htempl, hnodup2⟩ := nodup_cons.mp hnodup2
  have hit : item ≠ temp := fun heq => hitem (heq ▸ mem_cons_self)
  have hi2 : item ∉ l2 := fun hmem => hitem (mem_cons_of_mem temp hmem)
  have hi1 : item ∉ l1 := fun hmem => hapart item hmem item mem_cons_self rfl
  have ht1 : temp ∉ l1 := fun hmem => hapart temp hmem temp (by simp) rfl
  have h12 : ∀ x ∈ l1, x ∉ l2 := fun x hx hx' => hapart x hx x (by simp [hx']) rfl
  have hz1 : 0 ∉ l1 := fun hmem => h.nonnull (mem_append_left _ hmem)
  have hz2 : 0 ∉ l2 := fun hmem => h.nonnull (by simp [hmem])
  have hzi : item ≠ 0 := fun heq => h.nonnull (by simp [heq])
  have hzt : temp ≠ 0 := fun heq => h.nonnull (by simp [heq])
  have hc2 : ∀ x, x ∉ l2 → x ≠ 0 → l2.headD 0 ≠ x := by
    intro x hx hx0
    cases l2 with
    | nil => exact hx0.symm
    | cons c l2 => exact fun heq => hx (heq ▸ mem_cons_self)
  have hp1 : ∀ x, x ∉ l1 → x ≠ 0 → l1.getLastD 0 ≠ x := by
    intro x hx hx0 heq
    by_cases hnil : l1 = []
    · subst hnil
      exact hx0 heq.symm
    · exact hx (heq ▸ getLastD_mem_of_ne_nil hnil 0)
  have hs := swapped htemp hc hp hit (hc2 item hi2 hzi) (hc2 temp htempl hzt) (hp1 item hi1 hzi)
    (hp1 temp ht1 hzt)
  have hprev1 : ∀ x ∈ l1, (q.swap item).prev x = q.prev x := by
    intro x hx
    refine hs.prev_of_ne x (fun heq => hi1 (heq ▸ hx)) (fun heq => ht1 (heq ▸ hx)) ?_
    exact (hc2 x (h12 x hx) fun heq => hz1 (heq ▸ hx)).symm
  have hnext2 : ∀ x ∈ l2, (q.swap item).next x = q.next x := by
    intro x hx
    refine hs.next_of_ne x (fun heq => htempl (heq ▸ hx)) (fun heq => hi2 (heq ▸ hx)) ?_
    exact (hp1 x (fun hx' => h12 x hx' hx) fun heq => hz2 (heq ▸ hx)).symm
  refine ⟨fun hmem => h.nonnull (hperm.mem_iff.mp hmem), hperm.nodup_iff.mpr h.nodup, ?_, ?_, ?_⟩
  · have hhead := h.head
    rw [hs.head]
    cases l1 with
    | nil => exact if_pos hhead
    | cons x l1 =>
      have hx : q.head ≠ item := fun heq => hi1 (heq ▸ hhead ▸ mem_cons_self)
      exact (if_neg hx).trans hhead
  · have htail := h.tail
    rw [hs.tail]
    rw [getLastD_append, getLastD_cons, getLastD_cons] at htail ⊢
    cases l2 with
    | nil => exact if_pos htail
    | cons c l2 =>
      have hin : (c :: l2).getLastD 0 ∈ c :: l2 := getLastD_mem_of_ne_nil (by simp) 0
      rw [getLastD_cons] at htail hin ⊢
      have hne : q.tail ≠ temp := fun heq => htempl (heq ▸ htail ▸ hin)
      exact (if_neg hne).trans htail
  · refine linked_append_iff.mpr ⟨?_, hs.prev_temp, hs.next_temp, hs.prev_item, hs.next_item, ?_⟩
    · -- the last of the nodes in front has `temp` behind it now
      refine hbefore.congr (fun a ha => ?_) (fun a ha => ?_) (fun a ha => ?_) fun a ha => ?_
      · rw [hprev1 a (mem_of_head? ha)]
        exact hbefore.first ha
      · exact hprev1 a (mem_of_mem_tail ha)
      · have hlast := getLastD_of_getLast? ha 0
        rw [← hlast]
        exact hs.next_before fun heq => hz1 (heq ▸ hlast ▸ mem_of_getLast? ha)
      · have hmem := dropLast_subset _ ha
        refine hs.next_of_ne a (fun heq => ht1 (heq ▸ hmem)) (fun heq => hi1 (heq ▸ hmem)) ?_
        obtain ⟨b, hb⟩ := Option.ne_none_iff_exists'.mp
          (mt getLast?_eq_none_iff.mp (ne_nil_of_mem hmem))
        rw [getLastD_of_getLast? hb]
        exact ne_last_of_mem_dropLast hnodup1 ha hb
    · -- the first of the nodes behind has the item in front of it now
      refine hbehind.congr (fun a ha => ?_) (fun a ha => ?_) (fun a ha => ?_) fun a ha => ?_
      · have hhead : l2.headD 0 = a := by
          cases l2 with
          | nil => exact absurd ha (by simp)
          | cons c l2 => exact Option.some.inj ha
        rw [← hhead]
        exact hs.prev_behind fun heq => hz2 (heq ▸ hhead ▸ mem_of_head? ha)
      · cases l2 with
        | nil => exact absurd ha (by simp)
        | cons c l2 =>
          have hac : a ≠ c := fun heq => (nodup_cons.mp hnodup2).1 (heq ▸ ha)
          have hmem := mem_cons_of_mem c ha
          exact hs.prev_of_ne a (fun heq => hi2 (heq ▸ hmem)) (fun heq => htempl (heq ▸ hmem)) hac
      · rw [hnext2 a (mem_of_getLast? ha)]
        exact hbehind.last ha
      · exact hnext2 a (dropLast_subset _ ha)

/-- An item with the nodes `l2` behind it sinks to its place among them. -/
theorem bubbleUp_spec [LinearOrder κ] {fuel : Nat} (h : Links q (l1 ++ item :: l2))
    (hfuel : l2.length < fuel) :
    ∃ q', q.bubbleUp fuel item = some q' ∧ Links q' (l1 ++ settle q.key item l2) ∧
      q'.key = q.key := by
  induction l2 generalizing q l1 fuel with
  | nil =>
    obtain ⟨fuel, rfl⟩ := Nat.exists_eq_succ_of_ne_zero (Nat.ne_zero_of_lt hfuel)
    have hnext : q.next item = 0 := (linked_append_iff.mp h.linked).2.2.1
    exact ⟨q, by rw [PQueue.bubbleUp, if_pos hnext], h, rfl⟩
  | cons temp l2 ih =>
    obtain ⟨fuel, rfl⟩ := Nat.exists_eq_succ_of_ne_zero (Nat.ne_zero_of_lt hfuel)
    have hnext : q.next item = temp := (linked_append_iff.mp h.linked).2.2.1
    have htemp : temp ≠ 0 := fun heq => h.nonnull (by simp [heq])
    rw [PQueue.bubbleUp, if_neg (by rw [hnext]; exact htemp), hnext, settle]
    by_cases hle : q.key temp ≤ q.key item
    · rw [if_pos hle, if_pos hle]
      exact ⟨q, rfl, h, rfl⟩
    · rw [if_neg hle, if_neg hle]
      have hswap := h.swap
      rw [append_cons] at hswap
      have hkey : (q.swap item).key = q.key := by
        unfold PQueue.swap PQueue.linkBefore PQueue.linkBehind PQueue.swapEnds
        simp only [PQueue.setNext, PQueue.setPrev]
        split_ifs <;> rfl
      have hlt : l2.length < fuel := Nat.lt_of_succ_lt_succ hfuel
      obtain ⟨q', hq', hlinks, hkey'⟩ := ih hswap hlt
      refine ⟨q', hq', ?_, hkey'.trans hkey⟩
      rw [hkey, ← append_cons] at hlinks
      exact hlinks

/-! ## `insert`, `remove_if` and `remove` -/

theorem Links.push (h : Links q l) (hitem : item ∉ l) (hzero : item ≠ 0) (hne : l ≠ []) :
    Links { ((q.setPrev item 0).setNext item q.head).setPrev q.head item with head := item }
      (item :: l) := by
  obtain ⟨a, l, rfl⟩ := exists_cons_of_ne_nil hne
  have hhead : q.head = a := h.head
  obtain ⟨hal, hnodup⟩ := nodup_cons.mp h.nodup
  have hia : item ≠ a := fun heq => hitem (heq ▸ mem_cons_self)
  have hil : item ∉ l := fun hmem => hitem (mem_cons_of_mem a hmem)
  rw [hhead]
  simp only [PQueue.setNext, PQueue.setPrev]
  refine ⟨?_, nodup_cons.mpr ⟨hitem, h.nodup⟩, rfl, ?_, ?_, ?_, ?_⟩
  · intro hmem
    rcases mem_cons.mp hmem with heq | hmem
    · exact hzero heq.symm
    · exact h.nonnull hmem
  · rw [getLastD_cons, getLastD_cons]
    have htail := h.tail
    rwa [getLastD_cons] at htail
  · dsimp only
    rw [update_of_ne hia, update_self]
  · exact update_self _ _ _
  · have hne_item : ∀ x ∈ a :: l, x ≠ item := fun x hx heq => hitem (heq ▸ hx)
    dsimp only
    refine h.linked.congr (fun x hx => ?_) (fun x hx => ?_) (fun x hx => ?_) fun x hx => ?_
    · obtain rfl := Option.some.inj hx
      exact update_self _ _ _
    · have hxl : x ∈ l := hx
      have hxa : x ≠ a := fun heq => hal (heq ▸ hxl)
      rw [update_of_ne hxa, update_of_ne (hne_item x (by simp [hxl]))]
    · rw [update_of_ne (hne_item x (mem_of_getLast? hx))]
      exact h.linked.last hx
    · rw [update_of_ne (hne_item x (dropLast_subset _ hx))]

theorem insert_spec [LinearOrder κ] {fuel : Nat} (h : Links q l) (hitem : item ∉ l)
    (hzero : item ≠ 0) (hfuel : l.length < fuel) :
    ∃ q', q.insert fuel item = some q' ∧ Links q' (settle q.key item l) ∧ q'.key = q.key := by
  unfold PQueue.insert
  by_cases hne : l = []
  · subst hne
    rw [if_pos (show q.head = 0 from h.head)]
    refine ⟨_, rfl, ⟨?_, nodup_singleton _, rfl, rfl, ?_, ?_, trivial⟩, rfl⟩
    · simpa [settle] using hzero.symm
    · exact update_self _ _ _
    · exact update_self _ _ _
  · rw [if_neg (h.head_ne_zero.mpr hne)]
    exact bubbleUp_spec (nil_append (item :: l) ▸ h.push hitem hzero hne) hfuel

theorem Links.concat {n : Nat} (h : Links q (l ++ [n])) :
    q.tail = n ∧ q.prev n = l.getLastD 0 ∧ (q.head = q.tail ↔ l = []) ∧ n ≠ 0 := by
  have htail : q.tail = n := by
    rw [h.tail, getLastD_append]
    rfl
  refine ⟨htail, (linked_append_iff.mp h.linked).2.1, ?_, fun heq => h.nonnull (by simp [heq])⟩
  rw [htail, h.head]
  cases l with
  | nil => simp
  | cons a l =>
    have hne : a ≠ n := by
      intro heq
      have hnodup : (a :: (l ++ [n])).Nodup := h.nodup
      exact (nodup_cons.mp hnodup).1 (by simp [heq])
    simp [hne]

theorem Links.cut {n : Nat} (h : Links q (l ++ [n])) (htail : q'.tail = l.getLastD 0)
    (hhead : q'.head = l.headD 0) (hprev : q'.prev = q.prev)
    (hnext : q'.next = if l.getLastD 0 ≠ 0 then update q.next (l.getLastD 0) 0
      else q.next) : Links q' l := by
  have hzero : 0 ∉ l := fun hmem => h.nonnull (mem_append_left _ hmem)
  have hnodup : l.Nodup := (nodup_append.mp h.nodup).1
  refine ⟨hzero, hnodup, hhead, htail, ?_⟩
  have hlinked := (linked_append_iff.mp h.linked).1
  refine hlinked.congr (fun a ha => ?_) (fun a _ => ?_) (fun a ha => ?_) fun a ha => ?_
  · rw [hprev]
    exact hlinked.first ha
  · rw [hprev]
  · have hlast := getLastD_of_getLast? ha 0
    have ha0 : a ≠ 0 := fun heq => hzero (heq ▸ mem_of_getLast? ha)
    rw [hnext, hlast, if_pos ha0, update_self]
  · obtain ⟨b, hb⟩ := Option.ne_none_iff_exists'.mp
      (mt getLast?_eq_none_iff.mp (ne_nil_of_mem (dropLast_subset _ ha)))
    rw [hnext, getLastD_of_getLast? hb]
    split_ifs
    · rw [update_of_ne (ne_last_of_mem_dropLast hnodup ha hb)]
    · rfl

theorem removeIf_nil [LinearOrder κ] (h : Links q []) (limit : κ) : q.removeIf limit = (0, q) := by
  have htail : q.tail = 0 := h.tail
  rw [PQueue.removeIf, if_neg fun hdue => hdue.1 htail]

theorem removeIf_spec [LinearOrder κ] {n : Nat} (h : Links q (l ++ [n])) (limit : κ) :
    (q.key n ≤ limit ∧ ∃ q', q.removeIf limit = (n, q') ∧ Links q' l ∧ q'.key = q.key) ∨
      (¬ q.key n ≤ limit ∧ q.removeIf limit = (0, q)) := by
  obtain ⟨htail, hprev, hends, hzero⟩ := h.concat
  unfold PQueue.removeIf
  rw [htail]
  by_cases hdue : q.key n ≤ limit
  · refine Or.inl ⟨hdue, ?_⟩
    rw [if_pos ⟨hzero, hdue⟩]
    rw [htail] at hends
    dsimp only
    by_cases hnil : l = []
    · rw [if_pos (hends.mpr hnil)]
      dsimp only
      rw [hprev]
      refine ⟨_, rfl, h.cut ?_ ?_ ?_ ?_, ?_⟩
      · subst hnil
        rfl
      · subst hnil
        rfl
      · split_ifs <;> rfl
      · split_ifs <;> rfl
      · split_ifs <;> rfl
    · rw [if_neg (mt hends.mp hnil)]
      dsimp only
      rw [hprev]
      refine ⟨_, rfl, h.cut ?_ ?_ ?_ ?_, ?_⟩
      · split_ifs <;> rfl
      · have hhead := h.head
        obtain ⟨a, l, rfl⟩ := exists_cons_of_ne_nil hnil
        split_ifs <;> exact hhead
      · split_ifs <;> rfl
      · split_ifs <;> rfl
      · split_ifs <;> rfl
  · exact Or.inr ⟨hdue, if_neg fun hboth => hdue hboth.2⟩

/-- `Queue::remove` takes the last node, and the links of the others stay what they were. -/
theorem remove_spec {n : Nat} (h : Links q (l ++ [n])) :
    ∃ q', q.remove = (n, q') ∧ q'.tail = l.getLastD 0 ∧ q'.head = l.headD 0 ∧
      q'.next = q.next ∧ q'.prev = q.prev ∧ q'.key = q.key := by
  obtain ⟨htail, hprev, hends, hzero⟩ := h.concat
  rw [htail] at hends
  unfold PQueue.remove
  rw [htail, if_pos hzero]
  dsimp only
  by_cases hnil : l = []
  · rw [if_pos (hends.mpr hnil)]
    subst hnil
    exact ⟨_, rfl, rfl, rfl, rfl, rfl, rfl⟩
  · rw [if_neg (mt hends.mp hnil)]
    refine ⟨_, rfl, hprev, ?_, rfl, rfl, rfl⟩
    have hhead := h.head
    obtain ⟨a, l, rfl⟩ := exists_cons_of_ne_nil hnil
    exact hhead

theorem remove_nil (h : Links q []) : q.remove = (0, q) := by
  have htail : q.tail = 0 := h.tail
  rw [PQueue.remove, if_neg fun hne => hne htail]

/-! ## What the operations do to a queue in order -/

section

variable [LinearOrder κ]

theorem Good.not_mem_zero (h : Good q arrivals) : 0 ∉ arrivals := by
  obtain ⟨l, hlinks, hord⟩ := h
  exact fun hmem => hlinks.nonnull (hord.perm.mem_iff.mpr hmem)

theorem Good.nodup (h : Good q arrivals) : arrivals.Nodup := by
  obtain ⟨l, hlinks, hord⟩ := h
  exact hord.perm.nodup_iff.mp hlinks.nodup

theorem good_new (key : Nat → κ) : Good (PQueue.new key) [] :=
  ⟨[], ⟨not_mem_nil, nodup_nil, rfl, rfl, trivial⟩, Ordered.nil key⟩

theorem Good.setKey (h : Good q arrivals) (hitem : item ∉ arrivals) (k : κ) :
    Good { q with key := update q.key item k } arrivals := by
  obtain ⟨l, hlinks, hord⟩ := h
  refine ⟨l, ⟨hlinks.nonnull, hlinks.nodup, hlinks.head, hlinks.tail, hlinks.linked⟩, ?_⟩
  refine hord.congr fun a ha => update_of_ne (fun heq => hitem ?_) _ _
  exact heq ▸ hord.perm.mem_iff.mp ha

theorem Good.insert {fuel : Nat} (h : Good q arrivals) (hzero : item ≠ 0)
    (hitem : item ∉ arrivals) (hfuel : arrivals.length < fuel) :
    ∃ q', q.insert fuel item = some q' ∧ Good q' (item :: arrivals) ∧ q'.key = q.key := by
  obtain ⟨l, hlinks, hord⟩ := h
  have hnot : item ∉ l := fun hmem => hitem (hord.perm.mem_iff.mp hmem)
  obtain ⟨q', hq', hlinks', hkey⟩ :=
    insert_spec hlinks hnot hzero (hord.perm.length_eq ▸ hfuel)
  refine ⟨q', hq', ⟨_, hlinks', ?_⟩, hkey⟩
  exact (hord.settle item).congr fun a _ => congrFun hkey a

theorem Good.removeIf (h : Good q arrivals) (limit : κ) :
    Good (q.removeIf limit).2 (arrivals.erase (q.removeIf limit).1) ∧
      (q.removeIf limit).2.key = q.key := by
  have hzero := h.not_mem_zero
  have hnodup := h.nodup
  obtain ⟨l, hlinks, hord⟩ := h
  rcases eq_nil_or_concat l with rfl | ⟨l, n, rfl⟩
  · rw [removeIf_nil hlinks, erase_of_not_mem hzero]
    exact ⟨⟨_, hlinks, hord⟩, rfl⟩
  · rw [concat_eq_append] at hlinks hord
    rcases removeIf_spec hlinks limit with ⟨-, q', hq', hlinks', hkey⟩ | ⟨-, hq'⟩
    · rw [hq']
      exact ⟨⟨l, hlinks', (hord.dropLast hnodup).congr fun a _ => congrFun hkey a⟩, hkey⟩
    · rw [hq', erase_of_not_mem hzero]
      exact ⟨⟨_, hlinks, hord⟩, rfl⟩

/-- `remove_if` takes the element that came first among those of the least key, exactly when
that key is at most the limit. -/
theorem Good.removeIf_eq_iff (h : Good q arrivals) (limit : κ) {n : Nat} (hn : n ≠ 0) :
    (q.removeIf limit).1 = n ↔ First q.key n arrivals ∧ q.key n ≤ limit := by
  have hnodup := h.nodup
  obtain ⟨l, hlinks, hord⟩ := h
  rcases eq_nil_or_concat l with rfl | ⟨l, m, rfl⟩
  · rw [removeIf_nil hlinks]
    constructor
    · intro heq
      exact absurd heq.symm hn
    · rintro ⟨hfirst, -⟩
      exact absurd (hord.perm.mem_iff.mpr hfirst.mem) not_mem_nil
  · rw [concat_eq_append] at hlinks hord
    have hm : First q.key m arrivals := hord.first hnodup
    have huniq : First q.key n arrivals → n = m := fun hfirst => hfirst.unique hm
    rcases removeIf_spec hlinks limit with ⟨hle, q', hq', -, -⟩ | ⟨hle, hq'⟩
    · rw [hq']
      constructor
      · rintro rfl
        exact ⟨hm, hle⟩
      · rintro ⟨hfirst, -⟩
        exact (huniq hfirst).symm
    · rw [hq']
      constructor
      · intro heq
        exact absurd heq.symm hn
      · rintro ⟨hfirst, hle'⟩
        exact absurd (huniq hfirst ▸ hle') hle

theorem Good.remove_iff (h : Good q arrivals) :
    Good q.remove.2 (arrivals.erase q.remove.1) ↔ arrivals.length ≤ 1 := by
  have hzero := h.not_mem_zero
  have hnodup := h.nodup
  obtain ⟨l, hlinks, hord⟩ := h
  rw [← hord.perm.length_eq]
  rcases eq_nil_or_concat l with rfl | ⟨l, n, rfl⟩
  · rw [remove_nil hlinks, erase_of_not_mem hzero]
    exact iff_of_true ⟨_, hlinks, hord⟩ (Nat.zero_le 1)
  · rw [concat_eq_append] at hlinks hord ⊢
    obtain ⟨q', hq', htail, hhead, hnext, hprev, hkey⟩ := remove_spec hlinks
    have hrest := hord.dropLast hnodup
    rw [hq']
    constructor
    · rintro ⟨l', hlinks', hord'⟩
      by_contra hlen
      -- the new tail still leads to the node that is gone
      have hne : l ≠ [] := by
        rintro rfl
        exact hlen (Nat.le_refl 1)
      have hlast : q.next (l.getLastD 0) = n := by
        obtain ⟨a, ha⟩ := Option.ne_none_iff_exists'.mp (mt getLast?_eq_none_iff.mp hne)
        rw [getLastD_of_getLast? ha]
        exact (linked_append_iff.mp hlinks.linked).1.last ha
      have hne' : l' ≠ [] := by
        rintro rfl
        exact hne (perm_nil.mp (hrest.perm.trans hord'.perm.symm))
      obtain ⟨a, ha⟩ := Option.ne_none_iff_exists'.mp (mt getLast?_eq_none_iff.mp hne')
      have hend : q'.next (l.getLastD 0) = 0 := by
        rw [← htail, hlinks'.tail, getLastD_of_getLast? ha]
        exact hlinks'.linked.last ha
      rw [hnext, hlast] at hend
      exact hlinks.concat.2.2.2 hend
    · intro hlen
      have hnil : l = [] := by
        rw [length_append, length_singleton] at hlen
        exact eq_nil_of_length_eq_zero (by omega)
      subst hnil
      exact ⟨[], ⟨not_mem_nil, nodup_nil, hhead, htail, trivial⟩,
        hrest.congr fun a _ => congrFun hkey a⟩

end

/-! ## Runs -/

/-- A queue and the nodes that are in it, the newest first.  The second is not in the
source. -/
structure Queued (κ : Type*) where
  queue : PQueue κ
  arrivals : List Nat

/-- The operations.  A client writes the key of a node before it inserts it. -/
inductive Op (κ : Type*) where
  | insert (item : Nat) (key : κ)
  | removeIf (limit : κ)
  | remove

section

variable [LinearOrder κ]

/-- A client inserts a node that is not in the queue.  A step that comes back has been
through the loop of `bubbleUp` in some number of turns. -/
inductive Step : Queued κ → Op κ → Queued κ → Prop
  | insert {s : Queued κ} {item : Nat} {key : κ} {fuel : Nat} {q' : PQueue κ} (hzero : item ≠ 0)
      (hitem : item ∉ s.arrivals)
      (hinsert : PQueue.insert fuel { s.queue with key := update s.queue.key item key }
        item = some q') :
      Step s (.insert item key) ⟨q', item :: s.arrivals⟩
  | removeIf {s : Queued κ} {limit : κ} :
      Step s (.removeIf limit)
        ⟨(s.queue.removeIf limit).2, s.arrivals.erase (s.queue.removeIf limit).1⟩
  | remove {s : Queued κ} :
      Step s .remove ⟨s.queue.remove.2, s.arrivals.erase s.queue.remove.1⟩

/-- The steps that call `remove` only where at most one element is in the queue. -/
def SafeStep (s : Queued κ) (op : Op κ) (s' : Queued κ) : Prop :=
  Step s op s' ∧ (op = .remove → s.arrivals.length ≤ 1)

theorem bubbleUp_mono {fuel fuel' : Nat} (hle : fuel ≤ fuel')
    (h : PQueue.bubbleUp fuel q item = some q') : PQueue.bubbleUp fuel' q item = some q' := by
  induction fuel generalizing q fuel' with
  | zero => exact absurd h (by simp [PQueue.bubbleUp])
  | succ fuel ih =>
    obtain ⟨fuel', rfl⟩ := Nat.exists_eq_succ_of_ne_zero (Nat.ne_zero_of_lt hle)
    rw [PQueue.bubbleUp] at h ⊢
    split_ifs at h ⊢
    · exact h
    · exact h
    · exact ih (Nat.le_of_succ_le_succ hle) h

theorem insert_mono {fuel fuel' : Nat} (hle : fuel ≤ fuel')
    (h : PQueue.insert fuel q item = some q') : PQueue.insert fuel' q item = some q' := by
  unfold PQueue.insert at h ⊢
  split_ifs at h ⊢
  · exact h
  · exact bubbleUp_mono hle h

theorem insert_good {fuel : Nat} (h : Good q arrivals) (hzero : item ≠ 0) (hitem : item ∉ arrivals)
    (hinsert : PQueue.insert fuel q item = some q') :
    Good q' (item :: arrivals) ∧ q'.key = q.key := by
  obtain ⟨q'', hq, hgood, hkey⟩ := h.insert hzero hitem
    (show arrivals.length < fuel + arrivals.length + 1 by omega)
  have hmore := insert_mono (show fuel ≤ fuel + arrivals.length + 1 by omega) hinsert
  obtain rfl := Option.some.inj (hmore.symm.trans hq)
  exact ⟨hgood, hkey⟩

theorem SafeStep.good {s s' : Queued κ} {op : Op κ} (h : SafeStep s op s')
    (hgood : Good s.queue s.arrivals) : Good s'.queue s'.arrivals := by
  obtain ⟨hstep, hsafe⟩ := h
  cases hstep with
  | insert hzero hitem hinsert => exact (insert_good (hgood.setKey hitem _) hzero hitem hinsert).1
  | removeIf => exact (hgood.removeIf _).1
  | remove => exact hgood.remove_iff.mpr (hsafe rfl)

theorem good_of_run {key : Nat → κ} {ops : List (Op κ)} {s : Queued κ}
    (hrun : Run SafeStep ⟨PQueue.new key, []⟩ ops s) : Good s.queue s.arrivals := by
  have hstep : ∀ (s : Queued κ) (op : Op κ) (s' : Queued κ), Good s.queue s.arrivals →
      SafeStep s op s' → Good s'.queue s'.arrivals := fun _ _ _ hgood hstep => hstep.good hgood
  exact @Run.invariant _ _ _ _ (fun s => Good s.queue s.arrivals) (good_new key) hstep _ _ hrun

end

/-! ## The queue of `coalesce`

`PageManagerCore::coalesce` inserts the blocks of a free list, each of which is its own
key, and then takes them with `remove` and `remove_if`.  It pushes what it has taken on
a stack, whose links are in the same fields `next`.  No function that takes an element
reads such a field, so the pointers and the list of `Hostboot.Util.PQueue` agree, also
behind a `remove`. -/

inductive Take where
  | remove
  | removeIf (limit : Nat)

def PQueue.take (q : PQueue Nat) : Take → Nat × PQueue Nat
  | .remove => q.remove
  | .removeIf limit => q.removeIf limit

/-- The same on the list of the nodes. -/
def takeList (l : List Nat) : Take → Nat × List Nat
  | .remove => (Util.Queue.remove l).getD (0, l)
  | .removeIf limit => ((Util.PQueue.removeIf l limit).1.getD 0, (Util.PQueue.removeIf l limit).2)

/-- What a client takes from the list, one after the other. -/
def answers (l : List Nat) : List Take → List Nat
  | [] => []
  | t :: ts => (takeList l t).1 :: answers (takeList l t).2 ts

/-- The nodes that are left in the list. -/
def rest (l : List Nat) (ts : List Take) : List Nat := ts.foldl (fun l t => (takeList l t).2) l

theorem answers_concat (l : List Nat) (ts : List Take) (t : Take) :
    answers l (ts ++ [t]) = answers l ts ++ [(takeList (rest l ts) t).1] := by
  induction ts generalizing l with
  | nil => rfl
  | cons t' ts ih => exact congrArg _ (ih _)

/-- A node is taken, and the fields `next` change. -/
def TakeStep (q : PQueue Nat) (e : Take × Nat) (q' : PQueue Nat) : Prop :=
  e.2 = (q.take e.1).1 ∧ ∃ next, q' = { (q.take e.1).2 with next := next }

/-- The first loop of `coalesce`. -/
def PQueue.insertAll (fuel : Nat) (q : PQueue Nat) : List Nat → Option (PQueue Nat)
  | [] => some q
  | p :: ps => do
    let q ← PQueue.insert fuel { q with key := update q.key p p } p
    insertAll fuel q ps

/-- The links from the tail to the head, and the keys of the nodes. -/
structure Backward (q : PQueue Nat) (l : List Nat) : Prop where
  nonnull : 0 ∉ l
  nodup : l.Nodup
  head : q.head = l.headD 0
  tail : q.tail = l.getLastD 0
  prev : ∀ xs n ys, l = xs ++ n :: ys → q.prev n = xs.getLastD 0
  key : ∀ n ∈ l, q.key n = n

theorem Links.backward {q : PQueue Nat} (h : Links q l) (hkey : ∀ n ∈ l, q.key n = n) :
    Backward q l := by
  refine ⟨h.nonnull, h.nodup, h.head, h.tail, fun xs n ys hsplit => ?_, hkey⟩
  have hlinked := h.linked
  rw [hsplit] at hlinked
  exact (linked_append_iff.mp hlinked).2.1

namespace Backward

variable {q : PQueue Nat} {n : Nat}

theorem cut {q' : PQueue Nat} (h : Backward q (l ++ [n])) (hhead : q'.head = l.headD 0)
    (htail : q'.tail = l.getLastD 0) (hprev : q'.prev = q.prev) (hkey : q'.key = q.key) :
    Backward q' l := by
  refine ⟨fun hmem => h.nonnull (mem_append_left _ hmem), (nodup_append.mp h.nodup).1,
    hhead, htail, fun xs m ys hsplit => ?_, fun m hm => ?_⟩
  · rw [hprev]
    exact h.prev xs m (ys ++ [n]) (by rw [hsplit]; simp)
  · rw [hkey]
    exact h.key m (mem_append_left _ hm)

theorem concat (h : Backward q (l ++ [n])) :
    q.tail = n ∧ n ≠ 0 ∧ q.key n = n ∧
      (q.head = q.tail ∧ l = [] ∨ q.head ≠ q.tail ∧ q.prev n = l.getLastD 0 ∧ q.head = l.headD 0) := by
  have htail : q.tail = n := by
    rw [h.tail, getLastD_append]
    rfl
  refine ⟨htail, fun heq => h.nonnull (by simp [heq]), h.key n (by simp), ?_⟩
  have hhead := h.head
  cases l with
  | nil => exact Or.inl ⟨by rw [hhead, htail]; rfl, rfl⟩
  | cons a l =>
    have hne : a ≠ n := by
      intro heq
      have hnodup : (a :: (l ++ [n])).Nodup := h.nodup
      exact (nodup_cons.mp hnodup).1 (by simp [heq])
    exact Or.inr ⟨by rw [hhead, htail]; exact hne, h.prev (a :: l) n [] rfl, hhead⟩

theorem remove (h : Backward q (l ++ [n])) :
    ∃ q', q.remove = (n, q') ∧ q'.head = l.headD 0 ∧ q'.tail = l.getLastD 0 ∧ q'.prev = q.prev ∧
      q'.key = q.key := by
  obtain ⟨htail, hzero, -, hends⟩ := h.concat
  unfold PQueue.remove
  rw [htail] at hends ⊢
  rw [if_pos hzero]
  dsimp only
  rcases hends with ⟨heq, rfl⟩ | ⟨hne, hprev, hhead⟩
  · rw [if_pos heq]
    exact ⟨_, rfl, rfl, rfl, rfl, rfl⟩
  · rw [if_neg hne]
    exact ⟨_, rfl, hhead, hprev, rfl, rfl⟩

theorem removeIf (h : Backward q (l ++ [n])) {limit : Nat} (hle : n ≤ limit) :
    ∃ q', q.removeIf limit = (n, q') ∧ q'.head = l.headD 0 ∧ q'.tail = l.getLastD 0 ∧
      q'.prev = q.prev ∧ q'.key = q.key := by
  obtain ⟨htail, hzero, hkey, hends⟩ := h.concat
  unfold PQueue.removeIf
  rw [htail] at hends ⊢
  rw [if_pos ⟨hzero, hkey.symm ▸ hle⟩]
  dsimp only
  rcases hends with ⟨heq, rfl⟩ | ⟨hne, hprev, hhead⟩
  · rw [if_pos heq]
    split_ifs <;> exact ⟨_, rfl, rfl, rfl, rfl, rfl⟩
  · rw [if_neg hne]
    split_ifs <;> exact ⟨_, rfl, hhead, hprev, rfl, rfl⟩

theorem take (h : Backward q l) (t : Take) (next : Nat → Nat) :
    (q.take t).1 = (takeList l t).1 ∧
      Backward { (q.take t).2 with next := next } (takeList l t).2 := by
  have hsame : Backward { q with next := next } l :=
    ⟨h.nonnull, h.nodup, h.head, h.tail, h.prev, h.key⟩
  rcases eq_nil_or_concat l with rfl | ⟨l, n, rfl⟩
  · have htail : q.tail = 0 := h.tail
    have hnone : q.take t = (0, q) := by
      cases t with
      | remove => exact if_neg fun hne => hne htail
      | removeIf limit => exact if_neg fun hdue => hdue.1 htail
    rw [hnone]
    cases t <;> exact ⟨rfl, hsame⟩
  · rw [concat_eq_append] at h hsame ⊢
    cases t with
    | remove =>
      obtain ⟨q', hq', hhead, htail, hprev, hkey⟩ := h.remove
      have hlist : Util.Queue.remove (l ++ [n]) = some (n, l) := by
        simp [Util.Queue.remove]
      rw [PQueue.take, hq', takeList, hlist]
      exact ⟨rfl, h.cut hhead htail hprev hkey⟩
    | removeIf limit =>
      by_cases hle : n ≤ limit
      · obtain ⟨q', hq', hhead, htail, hprev, hkey⟩ := h.removeIf hle
        have hlist : Util.PQueue.removeIf (l ++ [n]) limit = (some n, l) := by
          simp [Util.PQueue.removeIf, hle]
        rw [PQueue.take, hq', takeList, hlist]
        exact ⟨rfl, h.cut hhead htail hprev hkey⟩
      · obtain ⟨htail, -, hkey, -⟩ := h.concat
        have hlist : Util.PQueue.removeIf (l ++ [n]) limit = (none, l ++ [n]) := by
          simp [Util.PQueue.removeIf, hle]
        have hnone : q.removeIf limit = (0, q) :=
          if_neg fun hdue => hle (by rw [← hkey, ← htail]; exact hdue.2)
        rw [PQueue.take, hnone, takeList, hlist]
        exact ⟨rfl, hsame⟩

theorem run {es : List (Take × Nat)} {q' : PQueue Nat} (h : Backward q l)
    (hrun : Run TakeStep q es q') :
    es.map Prod.snd = answers l (es.map Prod.fst) ∧ Backward q' (rest l (es.map Prod.fst)) := by
  induction hrun with
  | nil => exact ⟨rfl, h⟩
  | snoc _ hstep ih =>
    obtain ⟨hanswers, hback⟩ := ih
    obtain ⟨hanswer, next, rfl⟩ := hstep
    obtain ⟨htaken, hback'⟩ := hback.take _ next
    rw [map_append, map_append, map_singleton, map_singleton, answers_concat,
      hanswers, hanswer, htaken]
    refine ⟨rfl, ?_⟩
    rw [rest, foldl_concat]
    exact hback'

end Backward

theorem settle_eq_insert {key : Nat → Nat} (hkey : ∀ n ∈ item :: l, key n = n) :
    settle key item l = Util.PQueue.insert l item := by
  induction l with
  | nil => rfl
  | cons n l ih =>
    have hrec := ih fun m hm => hkey m (by simp at hm ⊢; tauto)
    unfold Util.PQueue.insert at hrec ⊢
    rw [settle, Util.PQueue.bubbleUp, hrec, hkey item (by simp), hkey n (by simp)]

theorem insertAll_spec {q : PQueue Nat} {fuel : Nat} {items : List Nat} (h : Links q l)
    (hkey : ∀ n ∈ l, q.key n = n) (hzero : 0 ∉ items) (hnodup : (items ++ l).Nodup)
    (hfuel : (items ++ l).length ≤ fuel) :
    ∃ q', q.insertAll fuel items = some q' ∧ Backward q' (items.foldl Util.PQueue.insert l) := by
  induction items generalizing q l with
  | nil => exact ⟨q, rfl, h.backward hkey⟩
  | cons p ps ih =>
    rw [cons_append] at hnodup hfuel
    have hnot := (nodup_cons.mp hnodup).1
    have hpl : p ∉ l := fun hmem => hnot (mem_append_right _ hmem)
    have hp0 : p ≠ 0 := fun heq => hzero (by simp [heq])
    have hkeys : ∀ n ∈ p :: l, update q.key p p n = n := by
      intro n hn
      by_cases heq : n = p
      · simp [heq]
      · rw [update_of_ne heq]
        exact hkey n (mem_of_ne_of_mem heq hn)
    have hlinks : Links { q with key := update q.key p p } l :=
      ⟨h.nonnull, h.nodup, h.head, h.tail, h.linked⟩
    have hlen : l.length < fuel := by
      rw [length_cons, length_append] at hfuel
      omega
    obtain ⟨q1, hinsert, hlinks1, hkey1⟩ := insert_spec hlinks hpl hp0 hlen
    rw [settle_eq_insert hkeys] at hlinks1
    have hperm := Util.PQueue.insert_perm l p
    have hkeys1 : ∀ n ∈ Util.PQueue.insert l p, q1.key n = n := by
      intro n hn
      rw [hkey1]
      exact hkeys n (hperm.mem_iff.mp hn)
    have hnodup1 : (ps ++ Util.PQueue.insert l p).Nodup := by
      refine ((hperm.append_left ps).nodup_iff).mpr ?_
      exact (perm_middle.nodup_iff).mpr hnodup
    have hfuel1 : (ps ++ Util.PQueue.insert l p).length ≤ fuel := by
      rw [length_cons, length_append] at hfuel
      rw [length_append, hperm.length_eq, length_cons]
      exact hfuel
    obtain ⟨q', hq', hback⟩ :=
      ih hlinks1 hkeys1 (fun hmem => hzero (mem_cons_of_mem p hmem)) hnodup1 hfuel1
    refine ⟨q', ?_, hback⟩
    rw [PQueue.insertAll, hinsert]
    exact hq'

/-- Whatever is taken from the queue, it is what is taken from the list. -/
theorem takes_refine {items : List Nat} (hzero : 0 ∉ items) (hnodup : items.Nodup)
    (key : Nat → Nat) :
    ∃ q, (PQueue.new key).insertAll items.length items = some q ∧
      ∀ es q', Run TakeStep q es q' →
        es.map Prod.snd = answers (items.foldl Util.PQueue.insert []) (es.map Prod.fst) := by
  have hlinks : Links (PQueue.new key) [] :=
    ⟨not_mem_nil, nodup_nil, rfl, rfl, trivial⟩
  obtain ⟨q, hq, hback⟩ := insertAll_spec hlinks (fun n hn => absurd hn not_mem_nil) hzero
    (by rwa [append_nil]) (by rw [append_nil])
  exact ⟨q, hq, fun es q' hrun => (hback.run hrun).1⟩

/-- Three blocks, of which `remove` takes the lowest and `remove_if` its neighbour. -/
theorem takes_refine_blocks :
    ∃ q, (PQueue.new fun _ => 0).insertAll 3 [0x3000, 0x1000, 0x2000] = some q ∧
      ∀ es q', Run TakeStep q es q' → es.map Prod.fst = [.remove, .removeIf 0x2000] →
        es.map Prod.snd = [0x1000, 0x2000] := by
  obtain ⟨q, hq, htakes⟩ :=
    takes_refine (show 0 ∉ [0x3000, 0x1000, 0x2000] by decide) (by decide) fun _ => 0
  refine ⟨q, hq, fun es q' hrun hfst => ?_⟩
  rw [htakes es q' hrun, hfst]
  decide

end Hostboot.Util.Locked
