import Concordance.Proofs.Query.Landing

/-!
# The law of cursors

The cursors of every proper plan are lawful (`Plan.Proper.lawful`), by induction over the plan. So
after any calls in any order the answers to a seek, and to everything that is asked of the document
it finds, depend on nothing but the plan and the number (`Cursor.answers_of_calls`).
-/

namespace Concordance

namespace Cursor

open Crew (Seated Seat SeatFrom Leaps Lands Finds)

/-! ## Cursors that search with a crew -/

/-- Whether the last search settles a seek. -/
theorem answers_iff {c : Cursor} {n : Nat} :
    c.answers n = true ↔ ∃ sought, c.sought = some sought ∧ sought ≤ n ∧ ∀ d ∈ c.document, n ≤ d := by
  unfold answers
  cases c.sought with
  | none => simp
  | some sought => cases c.document <;> simp

/-- What a search leaves in a cursor: the crew as a search may find it, the matches of the document,
and an answer for the number that was sought. -/
structure Kept (p : Plan) (before : Crew Cursor → Prop) (c : Cursor) : Prop where
  crew : before c.crew
  stands : Stands p c
  answer : ∀ sought ∈ c.sought, IsNearest (fun d => p.presentAt d) sought c.document

/-- A cursor whose searches find the nearest documents is lawful, though it does not always search. -/
theorem lawful_of_search {p : Plan} (before : Crew Cursor → Prop)
    {search : Crew Cursor → Nat → Option (Nat × List Span) × Crew Cursor}
    (hseek : Cursor.seek p = seekWith search) (hstart : Kept p before (start p))
    (hsearch : ∀ crew n, 1 ≤ n → before crew →
      Finds (Plan.matchesAt · p) n (search crew n).1 ∧ before (search crew n).2) : Lawful p := by
  have hstep : ∀ {c : Cursor}, Kept p before c → ∀ n, Kept p before (Cursor.seek p c n) ∧
      IsNearest (fun d => p.presentAt d) (max n 1) (Cursor.seek p c n).document := by
    intro c hkept n
    rw [hseek, seekWith]
    dsimp only
    split
    · next hanswers =>
        obtain ⟨sought, hsought, hle, hbehind⟩ := answers_iff.mp hanswers
        exact ⟨hkept, (hkept.answer sought hsought).later hle hbehind⟩
    · obtain ⟨⟨hnearest, hspans⟩, hcrew⟩ := hsearch c.crew (max n 1) (Nat.le_max_right n 1) hkept.crew
      refine ⟨⟨hcrew, ?_, ?_⟩, hnearest⟩
      · cases hhit : (search c.crew (max n 1)).1 with
        | none => rfl
        | some hit => exact hspans hit hhit
      · rintro _ ⟨⟩
        exact hnearest
  have hkept : ∀ {c : Cursor}, Reached p c → Kept p before c := by
    intro c h
    induction h with
    | start => exact hstart
    | seek n _ ih => exact (hstep ih n).1
    | seekPosition q _ ih => exact ⟨ih.crew, ih.stands, ih.answer⟩
  exact ⟨fun h => (hkept h).stands, fun h n => (hstep (hkept h) n).2⟩

/-! ## Crews at the start -/

@[simp] theorem seekAll_eq (parts : List Plan) : seekAll parts = parts.map Cursor.seek := by
  induction parts with
  | nil => rfl
  | cons p rest ih => rw [seekAll, ih, List.map_cons]

@[simp] theorem seekOf_eq (delimiter : Option Plan) :
    seekOf delimiter = delimiter.map Cursor.seek := by
  cases delimiter <;> rfl

theorem forall₂_startAll (parts : List Plan) :
    List.Forall₂ (fun p part => part = (start p, Standing.unknown)) parts (startAll parts) := by
  induction parts with
  | nil => exact List.Forall₂.nil
  | cons p rest ih => exact List.Forall₂.cons rfl ih

theorem rel_startOf (delimiter : Option Plan) :
    Option.Rel Reached delimiter (startOf delimiter) := by
  cases delimiter with
  | none => exact Option.Rel.none
  | some p => exact Option.Rel.some Reached.start

theorem seated_start (parts : List Plan) (delimiter : Option Plan) :
    Seated Seat parts delimiter { parts := startAll parts, delimiter := startOf delimiter } where
  parts := (forall₂_startAll parts).imp fun p part hpart => by
    rw [hpart]
    exact Reached.start
  delimiter := rel_startOf delimiter

theorem beforeAny_start (parts : List Plan) (delimiter : Option Plan) :
    Crew.BeforeAny parts delimiter { parts := startAll parts, delimiter := startOf delimiter } where
  parts := (forall₂_startAll parts).imp fun p part hpart => by
    rw [hpart]
    exact .inl ⟨rfl, Reached.start⟩
  delimiter := rel_startOf delimiter

/-- A fresh cursor has answered nothing. -/
theorem kept_start {p : Plan} {before : Crew Cursor → Prop} {crew : Crew Cursor}
    (hstart : start p = { crew }) (h : before crew) : Kept p before (start p) := by
  rw [hstart]
  exact ⟨h, rfl, by simp⟩

/-! ## Cursors of leaves -/

theorem lawful_nothing : Lawful .nothing := by
  have hfresh : ∀ {c : Cursor}, Reached .nothing c → c.document = none ∧ c.found = [] := by
    intro c h
    induction h with
    | start => exact ⟨rfl, rfl⟩
    | seek n _ ih => exact ih
    | seekPosition q _ ih => exact ih
  constructor
  · intro c h
    rw [Stands, (hfresh h).1]
    exact (hfresh h).2
  · intro c h n
    rw [Cursor.seek, (hfresh h).1]
    intro e _
    exact Bool.false_ne_true

theorem presentAt_term {postings : Postings} {d : Nat} :
    (Plan.term postings).presentAt d = true ↔ ∃ e ∈ postings.toList, e.1 = d := by
  rw [Plan.presentAt, Plan.matchesAt, Option.isSome_map, Option.isSome_iff_exists]
  constructor
  · rintro ⟨positions, hget⟩
    exact ⟨(d, positions), SortedMap.get?_eq_some_iff.mp hget, rfl⟩
  · rintro ⟨⟨d', positions⟩, hmem, rfl⟩
    exact ⟨positions, SortedMap.get?_eq_some_iff.mpr hmem⟩

theorem lawful_term {postings : Postings} (hp : (Plan.term postings).Proper) :
    Lawful (.term postings) := by
  have hfirst : ∀ n, IsNearest (fun d => (Plan.term postings).presentAt d = true) n
      ((postings.firstFrom? n).map (·.1)) := by
    intro n
    refine (IsNearest.find? postings.byNumber.ascending.lt n).congr fun e _ => ?_
    exact presentAt_term.symm
  have hstands : ∀ {c : Cursor}, Reached (.term postings) c → Stands (.term postings) c := by
    intro c h
    induction h with
    | start => rfl
    | seekPosition q _ ih => exact ih
    | @seek c n _ ih =>
        rw [Cursor.seek, seekTerm]
        dsimp only
        split
        · exact ih
        · cases hposting : postings.firstFrom? (max n 1) with
          | none => rfl
          | some e =>
              have hmem : e ∈ postings.toList := List.mem_of_find?_eq_some hposting
              have hget : postings.get? e.1 = some e.2 := SortedMap.get?_eq_some_iff.mpr hmem
              rw [Stands]
              dsimp only [Option.map_some]
              rw [Plan.matchesAt, hget, Option.map_some, Plan.termSpans_eq (hp e hmem)]
              rfl
  refine ⟨hstands, fun {c} h n => ?_⟩
  rw [Cursor.seek, seekTerm]
  dsimp only
  split
  · next hthere =>
      -- the cursor stays on a document that it stands on rightly
      have hpresent : (Plan.term postings).presentAt (max n 1) = true := by
        have := hstands h
        rw [Stands, hthere] at this
        exact Option.isSome_iff_exists.mpr ⟨_, this⟩
      rw [hthere]
      exact ⟨Nat.le_refl _, hpresent, fun e he hlt => by omega⟩
  · exact hfirst (max n 1)

/-- Sets of documents have no matches, and are sought anew each time. -/
theorem lawful_of_set {p : Plan} (search : Nat → Option Nat)
    (hseek : ∀ c n, Cursor.seek p c n = { c with document := search (max n 1) })
    (hstart : start p = {}) (hmatches : ∀ d, p.presentAt d = true → p.matchesAt d = some [])
    (hnearest : ∀ n, IsNearest (fun d => p.presentAt d) n (search n)) : Lawful p := by
  have hstands : ∀ {c : Cursor}, Reached p c →
      c.found = [] ∧ ∀ d ∈ c.document, p.presentAt d = true := by
    intro c h
    induction h with
    | start =>
        rw [hstart]
        exact ⟨rfl, by simp⟩
    | seekPosition q _ ih => exact ih
    | @seek c n _ ih =>
        rw [hseek]
        refine ⟨ih.1, fun d hd => ?_⟩
        have hfound := hnearest (max n 1)
        rw [show search (max n 1) = some d from hd] at hfound
        exact hfound.passes
  constructor
  · intro c h
    obtain ⟨hfound, hpresent⟩ := hstands h
    rw [Stands, hfound]
    split
    · next d hd => exact hmatches d (hpresent d hd)
    · rfl
  · intro c h n
    rw [hseek]
    exact hnearest (max n 1)

theorem nearest_in_list {l : List Nat} (h : l.Pairwise (· < ·)) (n : Nat) :
    IsNearest (· ∈ l) n (l.find? (n ≤ ·)) := by
  have hfind : IsNearest (fun d => ∃ a ∈ l, id a = d) n ((l.find? (n ≤ ·)).map id) :=
    IsNearest.find? h n
  rw [Option.map_id] at hfind
  refine hfind.congr fun e _ => ?_
  simp

theorem lawful_access {lists : List (List Nat)} (hp : (Plan.access lists).Proper) :
    Lawful (.access lists) := by
  have hpresent : ∀ d, (Plan.access lists).presentAt d = true ↔ ∃ l ∈ lists, d ∈ l := by
    intro d
    rw [Plan.presentAt, Plan.matchesAt]
    by_cases hany : lists.any (·.contains d) = true <;> simp
  refine lawful_of_set (fun n => (lists.filterMap (·.find? (n ≤ ·))).min?) (fun c n => rfl) rfl
    ?_ ?_
  · intro d hd
    rw [Plan.presentAt, Plan.matchesAt] at hd
    rw [Plan.matchesAt]
    split at hd
    · next hany => rw [if_pos hany]
    · cases hd
  · intro n
    have hlists : List.Forall₂ (fun l answer => IsNearest (· ∈ l) n answer) lists
        (lists.map (·.find? (n ≤ ·))) :=
      List.forall₂_map_right_iff.mpr (List.forall₂_same.mpr fun l hl => nearest_in_list (hp l hl) n)
    have hmin := IsNearest.min? hlists
    rw [List.filterMap_map] at hmin
    exact hmin.congr fun e _ => (hpresent e).symm

theorem lawful_documents {numbers : List Nat} (hp : (Plan.documents numbers).Proper) :
    Lawful (.documents numbers) := by
  refine lawful_of_set (fun n => numbers.find? (n ≤ ·)) (fun c n => rfl) rfl ?_ ?_
  · intro d hd
    rw [Plan.presentAt, Plan.matchesAt] at hd
    rw [Plan.matchesAt]
    split at hd
    · next hcontains => rw [if_pos hcontains]
    · cases hd
  · intro n
    refine (nearest_in_list hp n).congr fun e _ => ?_
    rw [Plan.presentAt, Plan.matchesAt]
    by_cases hmem : e ∈ numbers <;> simp [hmem]

theorem lawful_field (start stop : Nat) (table : Table) (maxNumber total : Nat) :
    Lawful (.field start stop table maxNumber total) := by
  refine lawful_of_search (fun _ => True) rfl (kept_start rfl trivial) ?_
  intro crew n hn h
  refine Crew.search_finds (Crew.leapNumbers_leaps maxNumber fun _ => True)
    (Crew.landField_lands table start stop maxNumber total fun _ => True) ?_ (fun _ hd => hd) hn
    (by omega : maxNumber < (maxNumber + 1) + n) h
  intro d hd
  rw [Plan.matchesAt] at hd
  split at hd
  · assumption
  · cases hd

/-! ## Restrictions -/

/-- Seeking on with one cursor finds the nearest document that passes a test. -/
theorem seekWhere_spec {p : Plan} (hlaw : Lawful p) {test : Nat → Bool} {bound : Nat}
    (hbound : ∀ d, p.presentAt d = true → d ≤ bound) {fuel n : Nat} {c : Cursor} (hn : 1 ≤ n)
    (hfuel : 1 ≤ fuel ∧ bound + 1 < fuel + n) (h : Reached p c) :
    IsNearest (fun d => p.presentAt d = true ∧ test d = true) n
        (seekWhere (Cursor.seek p) test fuel c n).document ∧
      Reached p (seekWhere (Cursor.seek p) test fuel c n) := by
  induction fuel generalizing n c with
  | zero => exact absurd hfuel.1 (Nat.not_succ_le_zero 0)
  | succ fuel ih =>
      have hnearest := hlaw.nearest h n
      rw [Nat.max_eq_left hn] at hnearest
      have hreached : Reached p (Cursor.seek p c n) := h.seek n
      unfold seekWhere
      dsimp only
      split
      · next hdoc =>
          rw [hdoc] at hnearest ⊢
          exact ⟨fun e he hpass => hnearest e he hpass.1, hreached⟩
      · next d hdoc =>
          rw [hdoc] at hnearest
          obtain ⟨hnd, hpresent, hleast⟩ := hnearest
          split
          · next htest =>
              rw [hdoc]
              exact ⟨⟨hnd, ⟨hpresent, htest⟩, fun e he hlt hpass => hleast e he hlt hpass.1⟩,
                hreached⟩
          · next htest =>
              have hd := hbound d hpresent
              obtain ⟨hrest, hlast⟩ := ih (n := d + 1) (by omega) (by omega) hreached
              refine ⟨hrest.earlier (by omega) fun e he hlt hpass => ?_, hlast⟩
              rcases Nat.lt_or_eq_of_le (Nat.lt_succ_iff.mp hlt) with hlt | rfl
              · exact hleast e he hlt hpass.1
              · exact htest hpass.2

theorem presentAt_restricted {inner : Plan} {table : Table} {tests : List (List ColumnTest)}
    {d : Nat} : (Plan.restricted inner table tests).presentAt d = true ↔
      inner.presentAt d = true ∧ ColumnTest.allHold tests table d = true := by
  rw [Plan.presentAt, Plan.matchesAt]
  split
  · next hpass => simp [Plan.presentAt, hpass]
  · next hfail => simp [hfail]

theorem lawful_restricted {inner : Plan} (hlaw : Lawful inner) (hp : inner.Proper) (table : Table)
    (tests : List (List ColumnTest)) : Lawful (.restricted inner table tests) := by
  have hseek : ∀ {c : Cursor} (n : Nat), Reached inner c →
      IsNearest (fun d => inner.presentAt d = true ∧ ColumnTest.allHold tests table d = true)
          (max n 1) (Cursor.seek (.restricted inner table tests) c n).document ∧
        Reached inner (Cursor.seek (.restricted inner table tests) c n) := by
    intro c n h
    exact seekWhere_spec hlaw (fun d => Plan.le_bound_of_presentAt hp) (Nat.le_max_right n 1)
      ⟨by omega, by omega⟩ h
  -- the cursor is one of the inner plan, on a document that passes
  have hinner : ∀ {c : Cursor}, Reached (.restricted inner table tests) c →
      Reached inner c ∧ ∀ d ∈ c.document, ColumnTest.allHold tests table d = true := by
    intro c h
    induction h with
    | start =>
        rw [start]
        refine ⟨Reached.start, fun d hd => ?_⟩
        have hnone : ∀ p : Plan, (start p).document = none := by
          intro p
          induction p using Plan.induct with
          | restricted inner _ _ ih => exact ih
          | _ => rfl
        rw [hnone] at hd
        cases hd
    | seekPosition q _ ih => exact ⟨ih.1.seekPosition q, ih.2⟩
    | seek n _ ih =>
        obtain ⟨hnearest, hreached⟩ := hseek n ih.1
        refine ⟨hreached, fun d hd => ?_⟩
        rw [show (Cursor.seek _ _ n).document = some d from hd] at hnearest
        exact hnearest.passes.2
  constructor
  · intro c h
    obtain ⟨hreached, hpass⟩ := hinner h
    have hstands := hlaw.stands hreached
    unfold Stands at hstands ⊢
    split
    · next d hdoc =>
        rw [hdoc] at hstands
        rw [Plan.matchesAt, if_pos (hpass d hdoc)]
        exact hstands
    · next hdoc =>
        rw [hdoc] at hstands
        exact hstands
  · intro c h n
    exact (hseek n (hinner h).1).1.congr fun e _ => presentAt_restricted.symm

/-! ## Structures -/

theorem lawful_union {parts : List Plan} (hlaw : ∀ p ∈ parts, Lawful p)
    (hp : ∀ p ∈ parts, p.Proper) : Lawful (.union parts) := by
  refine lawful_of_search (Crew.BeforeAny parts none) (by rw [Cursor.seek, seekAll_eq])
    (kept_start rfl (beforeAny_start parts none)) ?_
  intro crew n hn h
  have hfinds := Crew.search_finds (Crew.leapAny_leaps hlaw) (Crew.landPresence_lands hlaw hp 1)
    (fun d => Plan.exists_part_of_gather (Nat.le_refl 1)) (Plan.le_boundOfAll_of_part hp) hn
    (by omega : Plan.boundOfAll parts < (Plan.boundOfAll parts + 2) + n) h
  simpa only [Plan.matchesAt, Plan.matchesOfAll_eq] using hfinds

theorem lawful_presence {need : Nat} (hneed : 1 ≤ need) {parts : List Plan}
    (hlaw : ∀ p ∈ parts, Lawful p) (hp : ∀ p ∈ parts, p.Proper) :
    Lawful (.presence need parts) := by
  refine lawful_of_search (Crew.BeforeAny parts none) (by rw [Cursor.seek, seekAll_eq])
    (kept_start rfl (beforeAny_start parts none)) ?_
  intro crew n hn h
  have hfinds := Crew.search_finds (Crew.leapAny_leaps hlaw) (Crew.landPresence_lands hlaw hp need)
    (fun d => Plan.exists_part_of_gather hneed) (Plan.le_boundOfAll_of_part hp) hn
    (by omega : Plan.boundOfAll parts < (Plan.boundOfAll parts + 2) + n) h
  simpa only [Plan.matchesAt, Plan.matchesOfAll_eq] using hfinds

theorem lawful_window {range need : Nat} {parts : List Plan} {delimiter : Option Plan}
    (hlaw : ∀ p ∈ parts, Lawful p) (hp : ∀ p ∈ parts, p.Proper)
    (hlawCut : ∀ p ∈ delimiter, Lawful p) (hpCut : ∀ p ∈ delimiter, p.Proper) :
    Lawful (.window range need parts delimiter) := by
  refine lawful_of_search (Crew.BeforeAny parts delimiter)
    (by rw [Cursor.seek, seekAll_eq, seekOf_eq])
    (kept_start rfl (beforeAny_start parts delimiter)) ?_
  intro crew n hn h
  exact Crew.search_finds (Crew.leapAny_leaps hlaw)
    (Crew.landWindow_lands hlaw hp hlawCut hpCut range need) (fun d => Plan.exists_part_of_window)
    (Plan.le_boundOfAll_of_part hp) hn (by omega) h

theorem lawful_intersection {parts : List Plan} (hlaw : ∀ p ∈ parts, Lawful p)
    (hp : ∀ p ∈ parts, p.Proper) : Lawful (.intersection parts) := by
  refine lawful_of_search (Seated Seat parts none) (by rw [Cursor.seek, seekAll_eq])
    (kept_start rfl (seated_start parts none)) ?_
  intro crew n hn h
  exact Crew.search_finds (Crew.leapAll_leaps hlaw (Plan.le_boundOfAll_of_all hp))
    (Crew.landIntersection_lands hlaw hp) (fun d => Plan.all_parts_of_intersection)
    (fun d hd => Plan.le_boundOfAll_of_all hp hd.1 d hd.2) hn (by omega) h

theorem lawful_sequence {mode : Succession} {parts : List Plan} {delimiter : Option Plan}
    (hlaw : ∀ p ∈ parts, Lawful p) (hp : ∀ p ∈ parts, p.Proper)
    (hlawCut : ∀ p ∈ delimiter, Lawful p) (hpCut : ∀ p ∈ delimiter, p.Proper) :
    Lawful (.sequence mode parts delimiter) := by
  refine lawful_of_search (Seated Seat parts delimiter)
    (by rw [Cursor.seek, seekAll_eq, seekOf_eq]) (kept_start rfl (seated_start parts delimiter)) ?_
  intro crew n hn h
  exact Crew.search_finds (Crew.leapAll_leaps hlaw (Plan.le_boundOfAll_of_all hp))
    (Crew.landSequence_lands hlaw hp hlawCut hpCut mode) (fun d => Plan.all_parts_of_sequence)
    (fun d hd => Plan.le_boundOfAll_of_all hp hd.1 d hd.2) hn (by omega) h

theorem lawful_difference {kept dropped : Plan} (hlaw : Lawful kept) (hp : kept.Proper)
    (hlawDropped : Lawful dropped) (hpDropped : dropped.Proper) :
    Lawful (.difference kept dropped) := by
  refine lawful_of_search (Seated Seat [kept, dropped] none) rfl
    (kept_start rfl (seated_start [kept, dropped] none)) ?_
  intro crew n hn h
  exact Crew.search_finds (Crew.leapFirst_leaps hlaw)
    (Crew.landDifference_lands hlaw hp hlawDropped hpDropped) (fun d => Plan.kept_of_difference)
    (fun d => Plan.le_bound_of_presentAt hp) hn (by omega) h

theorem lawful_inside {inner outer : Plan} (hlaw : ∀ p ∈ [inner, outer], Lawful p)
    (hp : ∀ p ∈ [inner, outer], p.Proper) : Lawful (.inside inner outer) := by
  have hbound : ∀ d, (∀ p ∈ [inner, outer], p.presentAt d = true) → d ≤ inner.bound :=
    fun d hd => Plan.le_bound_of_presentAt (hp inner (by simp)) (hd inner (by simp))
  refine lawful_of_search (Seated Seat [inner, outer] none) rfl
    (kept_start rfl (seated_start [inner, outer] none)) ?_
  intro crew n hn h
  refine Crew.search_finds (Crew.leapAll_leaps hlaw fun _ => hbound)
    (Crew.landInside_lands hlaw hp) (fun d hd => ?_) (fun d hd => hbound d hd.2) hn (by omega) h
  obtain ⟨hinner, houter⟩ := Plan.both_of_inside hd
  simp [hinner, houter]

end Cursor

/-- The cursors of every proper plan are lawful. -/
theorem Plan.Proper.lawful {p : Plan} (hp : p.Proper) : Cursor.Lawful p := by
  induction p using Plan.induct with
  | nothing => exact Cursor.lawful_nothing
  | term postings => exact Cursor.lawful_term hp
  | field start stop table maxNumber total =>
      exact Cursor.lawful_field start stop table maxNumber total
  | access lists => exact Cursor.lawful_access hp
  | documents numbers => exact Cursor.lawful_documents hp
  | restricted inner table tests ih => exact Cursor.lawful_restricted (ih hp) hp table tests
  | union parts ih =>
      rw [Plan.Proper, Plan.properAll_iff] at hp
      exact Cursor.lawful_union (fun q hq => ih q hq (hp q hq)) hp
  | intersection parts ih =>
      rw [Plan.Proper, Plan.properAll_iff] at hp
      exact Cursor.lawful_intersection (fun q hq => ih q hq (hp q hq)) hp
  | presence need parts ih =>
      rw [Plan.Proper, Plan.properAll_iff] at hp
      exact Cursor.lawful_presence hp.1 (fun q hq => ih q hq (hp.2 q hq)) hp.2
  | difference kept dropped ihKept ihDropped =>
      exact Cursor.lawful_difference (ihKept hp.1) hp.1 (ihDropped hp.2) hp.2
  | inside inner outer ihInner ihOuter =>
      refine Cursor.lawful_inside ?_ ?_
      · simpa using ⟨ihInner hp.1, ihOuter hp.2⟩
      · simpa [Plan.Proper] using hp
  | sequence mode parts delimiter ih ihCut =>
      rw [Plan.Proper, Plan.properAll_iff, Plan.properOf_iff] at hp
      exact Cursor.lawful_sequence (fun q hq => ih q hq (hp.1 q hq)) hp.1
        (fun q hq => ihCut q hq (hp.2 q hq)) hp.2
  | window range need parts delimiter ih ihCut =>
      rw [Plan.Proper, Plan.properAll_iff, Plan.properOf_iff] at hp
      exact Cursor.lawful_window (fun q hq => ih q hq (hp.1 q hq)) hp.1
        (fun q hq => ihCut q hq (hp.2 q hq)) hp.2

namespace Cursor

/-! ## Calls -/

/-- What a cursor is asked. -/
inductive Call where
  | seek (number : Nat)
  | seekPosition (position : Nat)
  | walk
  | frequency
  deriving DecidableEq, Repr

/-- The cursor behind a call. -/
def after (p : Plan) (c : Cursor) : Call → Cursor
  | .seek n => Cursor.seek p c n
  | .seekPosition q => c.seekPosition q
  | .walk => c.walk.2
  | .frequency => c

/-- The cursor behind calls, from the start. -/
def afterAll (p : Plan) (calls : List Call) : Cursor := calls.foldl (after p) (start p)

/-- Whether a call leaves the cursor in its document. -/
def Call.Stays : Call → Prop
  | .seek _ => False
  | _ => True

theorem Reached.after {p : Plan} {c : Cursor} (h : Reached p c) (call : Call) :
    Reached p (c.after p call) := by
  cases call with
  | seek n => exact h.seek n
  | seekPosition q => exact h.seekPosition q
  | walk => exact h.walk
  | frequency => exact h

theorem Reached.afterAll {p : Plan} {c : Cursor} (h : Reached p c) (calls : List Call) :
    Reached p (calls.foldl (Cursor.after p) c) := by
  induction calls generalizing c with
  | nil => exact h
  | cons call rest ih => exact ih (h.after call)

theorem document_after {p : Plan} {c : Cursor} {call : Call} (h : call.Stays) :
    (c.after p call).document = c.document := by
  cases call with
  | seek n => exact h.elim
  | seekPosition q => rfl
  | walk =>
      obtain ⟨s, hs⟩ := c.walk_snd
      rw [after, hs]
  | frequency => rfl

theorem document_afterAll {p : Plan} {c : Cursor} {calls : List Call}
    (h : ∀ call ∈ calls, call.Stays) : (calls.foldl (after p) c).document = c.document := by
  induction calls generalizing c with
  | nil => rfl
  | cons call rest ih =>
      obtain ⟨hcall, hrest⟩ := List.forall_mem_cons.mp h
      rw [List.foldl_cons, ih hrest, document_after hcall]

/-- What a cursor answers that stands on a document, or behind all of them. -/
structure AnswersOn (p : Plan) (found : Option Nat) (c : Cursor) : Prop where
  document : c.document = found
  /-- A walk passes the matches of the document. -/
  walk : c.walk.1 = (found.map p.spansAt).getD []
  ascend : Span.StartsAscend c.walk.1
  frequency : c.frequency = c.walk.1.length
  /-- A seek inside the document answers the nearest start of a match, or 0. -/
  position : ∀ q, ∃ start, IsNearest (fun s => ∃ m ∈ c.walk.1, m.start = s) (max q 1) start ∧
    (c.seekPosition q).position = start.getD 0

theorem Lawful.answersOn {p : Plan} (hp : p.Proper) {c : Cursor} (h : Reached p c) :
    AnswersOn p c.document c := by
  have hfound := hp.lawful.found h
  have hmatches : Span.AreMatches c.found := by
    rw [hfound]
    cases c.document with
    | none => exact Span.areMatches_nil
    | some d => exact Plan.areMatches_spansAt hp d
  have hwalk := Cursor.walk_fst hmatches
  refine ⟨rfl, by rw [hwalk, hfound], ?_, ?_, fun q => ?_⟩
  · rw [hwalk]
    exact hmatches.ascend
  · rw [hwalk]
    rfl
  · rw [hwalk]
    exact ⟨_, seekPosition_nearest hmatches q, rfl⟩

/-- The law of cursors: after any calls, a seek finds the nearest document from its number on, and
until the next seek all answers are those of this document. Neither depends on the calls before. -/
theorem answers_of_calls {p : Plan} (hp : p.Proper) (n : Nat) :
    ∃ found, IsNearest (fun d => p.presentAt d) (max n 1) found ∧
      ∀ before behind, (∀ call ∈ behind, call.Stays) →
        AnswersOn p found (afterAll p (before ++ .seek n :: behind)) := by
  refine ⟨(Cursor.seek p (start p) n).document, hp.lawful.nearest Reached.start n, ?_⟩
  intro before behind hstays
  have hbefore : Reached p (afterAll p before) := Reached.start.afterAll before
  have hreached : Reached p (afterAll p (before ++ .seek n :: behind)) := Reached.start.afterAll _
  have hdocument : (afterAll p (before ++ .seek n :: behind)).document =
      (Cursor.seek p (start p) n).document := by
    have hsplit : afterAll p (before ++ .seek n :: behind) =
        behind.foldl (after p) (Cursor.seek p (afterAll p before) n) := by
      rw [afterAll, List.foldl_append, List.foldl_cons]
      rfl
    rw [hsplit, document_afterAll hstays]
    -- both seeks find the nearest document
    exact (hp.lawful.nearest hbefore n).unique (hp.lawful.nearest Reached.start n)
  have hanswers := Lawful.answersOn hp hreached
  rwa [hdocument] at hanswers

/-- The positions of a term that are not positions of another one. -/
def onlyFirst : Plan :=
  .difference (.term ⟨.ofList [(2, [1, 4]), (5, [3])]⟩) (.term ⟨.ofList [(2, [4]), (7, [3])]⟩)

/-- A cursor that went to document 5 and past the end answers a seek from 0 on with document 2. -/
theorem answers_of_calls_going_back :
    onlyFirst.Proper ∧
      AnswersOn onlyFirst (some 2)
        (afterAll onlyFirst [.seek 3, .walk, .seek 6, .seek 0, .seekPosition 2, .frequency]) := by
  have hproper : onlyFirst.Proper := by
    rw [onlyFirst, Plan.Proper, Plan.Proper, Plan.Proper]
    decide
  refine ⟨hproper, ?_⟩
  obtain ⟨found, hnearest, hanswers⟩ := answers_of_calls hproper 0
  have hfound : found = some 2 := by
    refine hnearest.unique ⟨by decide, by decide, fun e he hlt => ?_⟩
    have : e = 1 := by omega
    subst this
    decide
  rw [hfound] at hanswers
  exact hanswers [.seek 3, .walk, .seek 6] [.seekPosition 2, .frequency] (by simp [Call.Stays])

end Cursor

end Concordance
