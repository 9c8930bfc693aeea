import Hostboot.Errl.FruCallouts
import Hostboot.Lib.Loop

/-!
# The callouts of a FRU path

A FRU path is a text `P1:LOC1,P2:LOC2,...` of priorities and location codes.
`getTargetCallouts` reads one element after the other with `parseTargetCallout`.
Texts are the characters in front of the terminator.

After a bad element the parser does not look for the next comma: it goes on at
the character that it did not expect.  The module has three parts:

* the functions of the source;
* the way of the parser through one element, `elementOutcome`, and through all
  of them;
* `parsed_iff`, the texts for which the callouts are those of the elements.
-/

namespace Hostboot.Errl.Pel

open Hostboot.Lib Packed List

/-! ## The functions of the source -/

/-- A target, with the attributes that are looked at. -/
structure Target where
  huid : Nat
  staticAbsLocationCode : Option Bytes
  fruCcin : Option Nat
deriving DecidableEq

/-- `sizeof(ATTR_STATIC_ABS_LOCATION_CODE_type)`. -/
def LOCATION_CODE_SIZE : Nat := 64

/-- Whether `ATTR_FRU_CCIN` is there and not zero. -/
def Target.hasCcin (targ : Target) : Bool :=
  match targ.fruCcin with
  | some ccin => ccin != 0
  | none => false

/-- The loop of `findFruByLocationCode`, from a `worse_result` on. -/
def findFruLoop (locationCode : Bytes) : List Target → Option Target → Option Target
  | [], worseResult => worseResult
  | targ :: rest, worseResult =>
    if targ.staticAbsLocationCode.map cstr = some locationCode then
      if targ.hasCcin then some targ else findFruLoop locationCode rest (some targ)
    else findFruLoop locationCode rest worseResult

def findFruByLocationCode (targetService : List Target) (locationCode : Bytes) : Option Target :=
  findFruLoop locationCode targetService none

/-- `target_callout`. -/
structure TargetCallout where
  priority : Nat
  target : Target
deriving DecidableEq

/-- The priority of a letter. -/
def letterPriority (c : UInt8) : Option Nat :=
  if c = 'H'.toUInt8 then some SRCI_PRIORITY_HIGH
  else if c = 'M'.toUInt8 then some SRCI_PRIORITY_MED
  else if c = 'L'.toUInt8 then some SRCI_PRIORITY_LOW
  else none

/-- The end of `parseTargetCallout`, with the location code. -/
def lookUp (targetService : List Target) (priority : Nat) (locationCode : Bytes) :
    Option TargetCallout :=
  if locationCode.length ≥ LOCATION_CODE_SIZE then none
  else (findFruByLocationCode targetService locationCode).map fun target => ⟨priority, target⟩

/-- `parseTargetCallout`: the callout, when there is one, and where parsing ended. -/
def parseTargetCallout (targetService : List Target) : Bytes → Option TargetCallout × Bytes
  | [] => (none, [])
  | c :: rest =>
    match letterPriority c with
    | none => (none, c :: rest)
    | some priority =>
      if rest.head? = some ':'.toUInt8 then
        let calloutList := rest.tail
        let locationCode := calloutList.takeWhile (· ≠ ','.toUInt8)
        let calloutList := (calloutList.dropWhile (· ≠ ','.toUInt8)).tail
        (lookUp targetService priority locationCode, calloutList)
      else (none, rest)

/-- A round of `getTargetCallouts`. -/
def calloutRound (targetService : List Target) :
    Bytes × List TargetCallout → List TargetCallout ⊕ Bytes × List TargetCallout
  | ([], callouts) => .inl callouts
  | (c :: rest, callouts) =>
    let parsed := parseTargetCallout targetService (c :: rest)
    .inr (parsed.2, callouts ++ parsed.1.toList)

/-- `getTargetCallouts`, for a number of rounds. -/
def getTargetCallouts (targetService : List Target) (rounds : Nat) (calloutList : Bytes) :
    Option (List TargetCallout) :=
  Loop.run (calloutRound targetService) rounds (calloutList, [])

/-! ## What is right -/

/-- The elements of a text. -/
def elements (calloutList : Bytes) : List Bytes := calloutList.splitOn ','.toUInt8

/-- The callout of an element `P:LOC`. -/
def elementCallout (targetService : List Target) : Bytes → Option TargetCallout
  | [] => none
  | c :: rest =>
    if rest.head? = some ':'.toUInt8 then
      (letterPriority c).bind fun priority => lookUp targetService priority rest.tail
    else none

/-- The parser ends with the callouts of the elements. -/
def Parsed (targetService : List Target) (calloutList : Bytes) : Prop :=
  ∃ rounds, getTargetCallouts targetService rounds calloutList =
    some ((elements calloutList).filterMap (elementCallout targetService))

/-- Priorities, a colon and a text: one priority, or nothing that is found. -/
def Readable (targetService : List Target) (e : Bytes) : Prop :=
  ∃ letters c priority locationCode, e = letters ++ c :: ':'.toUInt8 :: locationCode ∧
    (∀ d ∈ letters, (letterPriority d).isSome) ∧ letterPriority c = some priority ∧
    (letters = [] ∨ lookUp targetService priority locationCode = none)

/-- The condition on the elements: the last one may also be priorities only. -/
def AllReadable (targetService : List Target) : List Bytes → Prop
  | [] => True
  | [e] => Readable targetService e ∨ ∀ c ∈ e, (letterPriority c).isSome
  | e :: e' :: es => Readable targetService e ∧ AllReadable targetService (e' :: es)

/-! ## The way through the elements -/

/-- The callout that the parser makes of an element, if it comes to its end. -/
def elementOutcome (targetService : List Target) (last : Bool) :
    Bytes → Option (Option TargetCallout)
  | [] => if last then some none else none
  | c :: rest =>
    (letterPriority c).bind fun priority =>
      if rest.head? = some ':'.toUInt8 then some (lookUp targetService priority rest.tail)
      else elementOutcome targetService last rest

/-- The callouts that the parser makes of the elements, if it comes to their end. -/
def outcomes (targetService : List Target) : List Bytes → Option (List TargetCallout)
  | [] => some []
  | [e] => (elementOutcome targetService true e).map Option.toList
  | e :: e' :: es =>
    (elementOutcome targetService false e).bind fun callout =>
      (outcomes targetService (e' :: es)).map (callout.toList ++ ·)

variable {targetService : List Target} {last : Bool} {e : Bytes} {es : List Bytes}

theorem elementCallout_cons (c : UInt8) (rest : Bytes) :
    elementCallout targetService (c :: rest) = if rest.head? = some ':'.toUInt8 then
      (letterPriority c).bind fun priority => lookUp targetService priority rest.tail
    else none := rfl

/-- The parser makes nothing of an element that is not read as it should be, or a callout that
should not be there. -/
theorem elementOutcome_cases {callout : Option TargetCallout}
    (h : elementOutcome targetService last e = some callout) :
    elementCallout targetService e = callout ∨ elementCallout targetService e = none := by
  cases e with
  | nil => exact .inr rfl
  | cons c rest =>
    unfold elementOutcome at h
    rw [elementCallout_cons]
    by_cases hcolon : rest.head? = some ':'.toUInt8
    · obtain ⟨priority, hpri, hsome⟩ := Option.bind_eq_some_iff.mp h
      rw [if_pos hcolon] at hsome ⊢
      rw [hpri]
      exact .inl (Option.some.inj hsome)
    · exact .inr (if_neg hcolon)

theorem elementOutcome_none_iff : elementOutcome targetService last e = some none ↔
    (∃ letters c priority locationCode, e = letters ++ c :: ':'.toUInt8 :: locationCode ∧
      (∀ d ∈ letters, (letterPriority d).isSome) ∧ letterPriority c = some priority ∧
      lookUp targetService priority locationCode = none) ∨
    last = true ∧ ∀ c ∈ e, (letterPriority c).isSome := by
  induction e with
  | nil =>
    unfold elementOutcome
    constructor
    · intro h
      refine .inr ⟨?_, nofun⟩
      by_contra hlast
      rw [if_neg hlast] at h
      cases h
    · rintro (⟨letters, c, priority, locationCode, heq, -⟩ | ⟨hlast, -⟩)
      · simp at heq
      · exact if_pos hlast
  | cons c rest ih =>
    unfold elementOutcome
    cases hpri : letterPriority c with
    | none =>
      refine iff_of_false nofun ?_
      rintro (⟨letters, d, priority, locationCode, heq, hletters, hd, -⟩ | ⟨-, hall⟩)
      · cases letters with
        | nil =>
          rw [← (List.cons.inj heq).1, hpri] at hd
          cases hd
        | cons d' letters =>
          have hsome := hletters d' mem_cons_self
          rw [← (List.cons.inj heq).1, hpri] at hsome
          cases hsome
      · have hsome := hall c mem_cons_self
        rw [hpri] at hsome
        cases hsome
    | some priority =>
      rw [Option.bind_some]
      by_cases hcolon : rest.head? = some ':'.toUInt8
      · obtain ⟨locationCode, rfl⟩ := head?_eq_some_iff.mp hcolon
        rw [if_pos hcolon, tail_cons, Option.some.injEq]
        constructor
        · intro hnone
          exact .inl ⟨[], c, priority, locationCode, rfl, nofun, hpri, hnone⟩
        · rintro (⟨letters, d, priority', loc, heq, hletters, hd, hnone⟩ | ⟨-, hall⟩)
          · rcases letters with _ | ⟨d', _ | ⟨d'', letters⟩⟩
            · obtain ⟨rfl, htail⟩ := List.cons.inj heq
              rw [hpri] at hd
              rw [Option.some.inj hd, (List.cons.inj htail).2]
              exact hnone
            · -- the colon is no priority
              rw [← (List.cons.inj (List.cons.inj heq).2).1] at hd
              cases hd
            · have hsome := hletters d'' (mem_cons_of_mem _ mem_cons_self)
              rw [← (List.cons.inj (List.cons.inj heq).2).1] at hsome
              cases hsome
          · cases hall ':'.toUInt8 (mem_cons_of_mem _ mem_cons_self)
      · rw [if_neg hcolon, ih]
        refine or_congr ⟨?_, ?_⟩ (and_congr_right fun _ => ?_)
        · rintro ⟨letters, d, priority', locationCode, rfl, hletters, hright⟩
          refine ⟨c :: letters, d, priority', locationCode, rfl, ?_, hright⟩
          exact forall_mem_cons.mpr ⟨by rw [hpri]; rfl, hletters⟩
        · rintro ⟨letters, d, priority', locationCode, heq, hletters, hright⟩
          cases letters with
          | nil =>
            rw [(List.cons.inj heq).2] at hcolon
            exact absurd rfl hcolon
          | cons d' letters =>
            exact ⟨letters, d, priority', locationCode, (List.cons.inj heq).2,
              (forall_mem_cons.mp hletters).2, hright⟩
        · rw [forall_mem_cons, hpri]
          exact (and_iff_right rfl).symm

theorem elementOutcome_right_iff :
    elementOutcome targetService last e = some (elementCallout targetService e) ↔
      Readable targetService e ∨ last = true ∧ ∀ c ∈ e, (letterPriority c).isSome := by
  have hnone := @elementOutcome_none_iff targetService last e
  cases hcallout : elementCallout targetService e with
  | some callout =>
    -- an element that has a callout is read at once
    cases e with
    | nil => cases hcallout
    | cons c rest =>
      rw [elementCallout_cons] at hcallout
      split at hcallout
      · rename_i hcolon
        obtain ⟨priority, hpri, hlook⟩ := Option.bind_eq_some_iff.mp hcallout
        obtain ⟨locationCode, rfl⟩ := head?_eq_some_iff.mp hcolon
        refine iff_of_true ?_
          (.inl ⟨[], c, priority, locationCode, rfl, nofun, hpri, .inl rfl⟩)
        unfold elementOutcome
        rw [hpri, Option.bind_some, if_pos hcolon, hlook]
      · cases hcallout
  | none =>
    rw [hnone]
    refine or_congr_left ⟨?_, ?_⟩
    · rintro ⟨letters, c, priority, locationCode, heq, hletters, hpri, hlook⟩
      exact ⟨letters, c, priority, locationCode, heq, hletters, hpri, .inr hlook⟩
    · rintro ⟨letters, c, priority, locationCode, rfl, hletters, hpri, hright⟩
      refine ⟨letters, c, priority, locationCode, rfl, hletters, hpri, ?_⟩
      rcases hright with rfl | hlook
      · rwa [nil_append, elementCallout_cons, head?_cons, if_pos rfl, hpri] at hcallout
      · exact hlook

theorem outcomes_length {ds : List TargetCallout} (h : outcomes targetService es = some ds) :
    (es.flatMap fun e => (elementCallout targetService e).toList).length ≤ ds.length := by
  fun_induction outcomes targetService es generalizing ds with
  | case1 => exact Nat.zero_le _
  | case2 e =>
    obtain ⟨callout, hcallout, rfl⟩ := Option.map_eq_some_iff.mp h
    rcases elementOutcome_cases hcallout with heq | heq <;> simp [heq]
  | case3 e e' es ih =>
    obtain ⟨callout, hcallout, hrest⟩ := Option.bind_eq_some_iff.mp h
    obtain ⟨ds, hds, rfl⟩ := Option.map_eq_some_iff.mp hrest
    have hle := ih hds
    rw [flatMap_cons, length_append, length_append]
    rcases elementOutcome_cases hcallout with heq | heq
    · rw [heq]
      exact Nat.add_le_add_left hle _
    · rw [heq, Option.toList_none, length_nil, Nat.zero_add]
      exact hle.trans (Nat.le_add_left _ _)

theorem toList_inj {a b : Option TargetCallout} (h : a.toList = b.toList) : a = b := by
  rw [← Option.head?_toList (o := a), h, Option.head?_toList]

theorem outcomes_right_iff : outcomes targetService es =
    some (es.flatMap fun e => (elementCallout targetService e).toList) ↔
      AllReadable targetService es := by
  fun_induction outcomes targetService es with
  | case1 => exact iff_of_true rfl trivial
  | case2 e =>
    have hright := @elementOutcome_right_iff targetService true e
    rw [AllReadable, flatMap_cons, flatMap_nil, append_nil]
    refine Iff.trans ?_ (hright.trans (or_congr_right (and_iff_right rfl)))
    constructor
    · intro h
      obtain ⟨callout, hcallout, heq⟩ := Option.map_eq_some_iff.mp h
      rw [hcallout, toList_inj heq]
    · intro h
      rw [h]
      rfl
  | case3 e e' es ih =>
    have hright := @elementOutcome_right_iff targetService false e
    rw [or_iff_left (fun h => Bool.false_ne_true h.1)] at hright
    rw [AllReadable, ← hright, ← ih, flatMap_cons]
    cases hcallout : elementOutcome targetService false e with
    | none => exact iff_of_false nofun fun h => by cases h.1
    | some callout =>
      rw [Option.bind_some]
      by_cases heq : elementCallout targetService e = callout
      · rw [heq, and_iff_right rfl]
        constructor
        · intro h
          obtain ⟨ds, hds, happend⟩ := Option.map_eq_some_iff.mp h
          rw [hds, append_cancel_left happend]
        · intro h
          rw [h]
          rfl
      · -- a callout too many
        have hnone := (elementOutcome_cases hcallout).resolve_left heq
        refine iff_of_false (fun h => ?_) fun h => heq (Option.some.inj h.1).symm
        obtain ⟨ds, hds, happend⟩ := Option.map_eq_some_iff.mp h
        rw [hnone] at heq happend
        have hle := outcomes_length hds
        have hlen := congrArg List.length happend
        obtain ⟨c, rfl⟩ := Option.ne_none_iff_exists'.mp (Ne.symm heq)
        rw [length_append, length_append] at hlen
        simp only [Option.toList_some, Option.toList_none, length_singleton,
          length_nil] at hlen
        omega

/-! ## The loop -/

theorem elementOutcome_colon {c : UInt8} {priority : Nat} (hpri : letterPriority c = some priority)
    (locationCode : Bytes) :
    elementOutcome targetService last (c :: ':'.toUInt8 :: locationCode)
      = some (lookUp targetService priority locationCode) := by
  unfold elementOutcome
  rw [hpri]
  rfl

theorem outcomes_letter {c : UInt8} {priority : Nat} (hpri : letterPriority c = some priority)
    (hcolon : e.head? ≠ some ':'.toUInt8) :
    outcomes targetService ((c :: e) :: es) = outcomes targetService (e :: es) := by
  have hpass : ∀ last, elementOutcome targetService last (c :: e)
      = elementOutcome targetService last e := by
    intro last
    rw [elementOutcome, hpri, Option.bind_some, if_neg hcolon]
  cases es with
  | nil => rw [outcomes, outcomes, hpass]
  | cons e' es => rw [outcomes, outcomes, hpass]

theorem outcomes_stuck {c : UInt8} (hpri : letterPriority c = none) :
    outcomes targetService ((c :: e) :: es) = none := by
  have hnone : ∀ last, elementOutcome targetService last (c :: e) = none := by
    intro last
    rw [elementOutcome, hpri, Option.bind_none]
  cases es with
  | nil => rw [outcomes, hnone, Option.map_none]
  | cons e' es => rw [outcomes, hnone, Option.bind_none]

theorem elements_cons {c : UInt8} (hc : c ≠ ','.toUInt8) (rest : Bytes) :
    ∃ e es, elements rest = e :: es ∧ elements (c :: rest) = (c :: e) :: es := by
  obtain ⟨e, es, heq⟩ := exists_cons_of_ne_nil (splitOn_ne_nil ','.toUInt8 rest)
  refine ⟨e, es, heq, ?_⟩
  unfold elements
  rw [splitOn_cons_eq_if_modifyHead, if_neg (by simpa using hc), heq]
  rfl

theorem elements_head {rest : Bytes} (heq : elements rest = e :: es) {d : UInt8}
    (hd : e.head? = some d) : rest.head? = some d := by
  cases rest with
  | nil =>
    obtain rfl : [] = e := (List.cons.inj heq).1
    cases hd
  | cons c rest =>
    by_cases hc : c = ','.toUInt8
    · unfold elements at heq
      rw [splitOn_cons_eq_if_modifyHead, if_pos (by simpa using hc)] at heq
      obtain rfl : [] = e := (List.cons.inj heq).1
      cases hd
    · obtain ⟨e', es', -, heq'⟩ := elements_cons hc rest
      rw [heq] at heq'
      rw [(List.cons.inj heq').1] at hd
      exact hd

section
variable {c : UInt8} {priority : Nat}

theorem parseTargetCallout_stuck (hpri : letterPriority c = none) (rest : Bytes) :
    parseTargetCallout targetService (c :: rest) = (none, c :: rest) := by
  rw [parseTargetCallout, hpri]

theorem parseTargetCallout_letter (hpri : letterPriority c = some priority) {rest : Bytes}
    (hcolon : rest.head? ≠ some ':'.toUInt8) :
    parseTargetCallout targetService (c :: rest) = (none, rest) := by
  rw [parseTargetCallout, hpri]
  exact if_neg hcolon

theorem parseTargetCallout_colon (hpri : letterPriority c = some priority) (body : Bytes) :
    parseTargetCallout targetService (c :: ':'.toUInt8 :: body) =
      (lookUp targetService priority (body.takeWhile (· ≠ ','.toUInt8)),
        (body.dropWhile (· ≠ ','.toUInt8)).tail) := by
  rw [parseTargetCallout, hpri]
  rfl

end

theorem calloutRound_cons (c : UInt8) (rest : Bytes) (callouts : List TargetCallout) :
    calloutRound targetService (c :: rest, callouts) =
      .inr ((parseTargetCallout targetService (c :: rest)).2,
        callouts ++ (parseTargetCallout targetService (c :: rest)).1.toList) := rfl

theorem notMem_takeWhile (body : Bytes) :
    ','.toUInt8 ∉ body.takeWhile (· ≠ ','.toUInt8) := by
  intro hmem
  have hne := mem_takeWhile_imp hmem
  simp at hne

theorem comma_cases (body : Bytes) :
    body.dropWhile (· ≠ ','.toUInt8) = [] ∧ body = body.takeWhile (· ≠ ','.toUInt8) ∨
      ∃ rest, body.dropWhile (· ≠ ','.toUInt8) = ','.toUInt8 :: rest ∧
        body = body.takeWhile (· ≠ ','.toUInt8) ++ ','.toUInt8 :: rest := by
  have hbody := (takeWhile_append_dropWhile (p := (· ≠ ','.toUInt8)) (l := body)).symm
  cases hdrop : body.dropWhile (· ≠ ','.toUInt8) with
  | nil =>
    rw [hdrop, append_nil] at hbody
    exact .inl ⟨rfl, hbody⟩
  | cons d rest =>
    obtain rfl : d = ','.toUInt8 := by
      have hhead := head?_dropWhile_not (· ≠ ','.toUInt8) body
      rw [hdrop] at hhead
      simpa using hhead
    rw [hdrop] at hbody
    exact .inr ⟨rest, rfl, hbody⟩

theorem calloutRound_returns_iff {s : Bytes} {callouts r : List TargetCallout} :
    Loop.Returns (calloutRound targetService) (s, callouts) r ↔
      ∃ ds, outcomes targetService (elements s) = some ds ∧ r = callouts ++ ds := by
  induction hn : s.length using Nat.strong_induction_on generalizing s callouts with
  | _ n ih =>
    cases s with
    | nil =>
      have hdone : calloutRound targetService ([], callouts) = .inl callouts := rfl
      rw [Loop.returns_of_done hdone]
      constructor
      · rintro rfl
        exact ⟨[], rfl, (append_nil r).symm⟩
      · rintro ⟨ds, hds, rfl⟩
        cases hds
        exact append_nil callouts
    | cons c rest =>
      have hround := @calloutRound_cons targetService c rest callouts
      cases hpri : letterPriority c with
      | none =>
        -- the parser does not move
        rw [parseTargetCallout_stuck hpri, Option.toList_none, append_nil] at hround
        refine iff_of_false (Loop.not_returns_of_stuck hround) ?_
        rintro ⟨ds, hds, -⟩
        by_cases hcomma : c = ','.toUInt8
        · obtain ⟨e, es, heq⟩ := exists_cons_of_ne_nil (splitOn_ne_nil ','.toUInt8 rest)
          unfold elements at hds
          rw [hcomma, splitOn_cons_eq_if_modifyHead, if_pos (by simp), heq] at hds
          cases hds
        · obtain ⟨e, es, -, heq⟩ := elements_cons hcomma rest
          rw [heq, outcomes_stuck hpri] at hds
          cases hds
      | some priority =>
        have hcomma : c ≠ ','.toUInt8 := by
          rintro rfl
          cases hpri
        by_cases hcolon : rest.head? = some ':'.toUInt8
        · obtain ⟨body, rfl⟩ := head?_eq_some_iff.mp hcolon
          rw [parseTargetCallout_colon hpri] at hround
          have hsplit := comma_cases body
          have hnot := notMem_takeWhile body
          generalize body.takeWhile (· ≠ ','.toUInt8) = locationCode at hround hsplit hnot
          generalize body.dropWhile (· ≠ ','.toUInt8) = after at hround hsplit
          have hread : ','.toUInt8 ∉ c :: ':'.toUInt8 :: locationCode := by
            rw [mem_cons, mem_cons, not_or, not_or]
            exact ⟨Ne.symm hcomma, by decide, hnot⟩
          rw [Loop.returns_of_next hround]
          rcases hsplit with ⟨rfl, rfl⟩ | ⟨rest, rfl, rfl⟩
          · -- the last element
            have hdone : calloutRound targetService ([],
                callouts ++ (lookUp targetService priority body).toList) = .inl _ := rfl
            have helements : elements (c :: ':'.toUInt8 :: body) = [c :: ':'.toUInt8 :: body] :=
              splitOn_eq_singleton hread
            rw [tail_nil, Loop.returns_of_done hdone, helements, outcomes,
              elementOutcome_colon hpri, Option.map_some]
            simp
          · -- the next element starts behind the comma
            have helements : elements (c :: ':'.toUInt8 :: (locationCode ++ ','.toUInt8 :: rest))
                = (c :: ':'.toUInt8 :: locationCode) :: elements rest :=
              splitOn_append_cons_self_of_not_mem hread rest
            have hlt : rest.length < n := by
              rw [← hn]
              simp
              omega
            obtain ⟨e, es, heq⟩ :=
              exists_cons_of_ne_nil (splitOn_ne_nil ','.toUInt8 rest)
            have heq : elements rest = e :: es := heq
            rw [tail_cons, ih _ hlt rfl, helements, heq, outcomes, elementOutcome_colon hpri,
              Option.bind_some]
            constructor
            · rintro ⟨ds, hds, rfl⟩
              exact ⟨_, by rw [hds]; rfl, append_assoc _ _ _⟩
            · rintro ⟨ds, hds, rfl⟩
              obtain ⟨ds', hds', rfl⟩ := Option.map_eq_some_iff.mp hds
              exact ⟨ds', hds', (append_assoc _ _ _).symm⟩
        · -- a priority without a colon
          rw [parseTargetCallout_letter hpri hcolon, Option.toList_none, append_nil] at hround
          obtain ⟨e, es, heq, heq'⟩ := elements_cons hcomma rest
          have hhead : e.head? ≠ some ':'.toUInt8 := fun h => hcolon (elements_head heq h)
          rw [Loop.returns_of_next hround, heq', outcomes_letter hpri hhead, ← heq]
          exact ih rest.length (by rw [← hn]; exact Nat.lt_succ_self _) rfl

/-- The callouts are those of the elements exactly for the texts that satisfy the condition. -/
theorem parsed_iff (targetService : List Target) (calloutList : Bytes) :
    Parsed targetService calloutList ↔ AllReadable targetService (elements calloutList) := by
  rw [← outcomes_right_iff, ← filterMap_eq_flatMap_toList]
  refine calloutRound_returns_iff.trans ?_
  simp only [nil_append, exists_eq_right']

/-- Behind the comma of an empty element the parser does not move. -/
theorem not_parsed_empty : ¬ Parsed [] ("H:A,,H:B".toList.map Char.toUInt8) := by
  rintro ⟨rounds, hrun⟩
  obtain ⟨ds, hds, -⟩ := calloutRound_returns_iff.mp ⟨rounds, hrun⟩
  have hnone : outcomes [] (elements ("H:A,,H:B".toList.map Char.toUInt8)) = none := by decide
  rw [hnone] at hds
  cases hds

end Hostboot.Errl.Pel
