import Concordance.Proofs.Query.Crew

/-!
# What a crew finds in a candidate

On a candidate of a structure whose parts are lawful and proper, the crew finds what `Plan.matchesAt`
says of the structure: each landing is in `Lands` with that as its matches. The parts only walk
through their matches meanwhile, so the crew is left as a search may find it.
-/

namespace Concordance

namespace Window

/-- Parts without spans do not matter for a window. -/
theorem spans_present (found : List (Option (List Span))) (range need : Nat) (cuts : List Span) :
    spans (found.filterMap id) range need cuts = spans (found.map (·.getD [])) range need cuts := by
  have hflatten : (found.filterMap id).flatten = (found.map (·.getD [])).flatten := by
    induction found with
    | nil => rfl
    | cons o rest ih => cases o <;> simpa using ih
  have hfirst : ∀ start, (found.filterMap id).filterMap (Span.firstFrom? start) =
      (found.map (·.getD [])).filterMap (Span.firstFrom? start) := by
    intro start
    clear hflatten
    induction found with
    | nil => rfl
    | cons o rest ih =>
        cases o with
        | none => exact ih
        | some part =>
            have hcons : (some part :: rest).filterMap id = part :: rest.filterMap id := rfl
            rw [hcons, List.map_cons, Option.getD_some, List.filterMap_cons, List.filterMap_cons, ih]
  have hnearest : nearest (found.filterMap id) = nearest (found.map (·.getD [])) := by
    funext start
    rw [nearest, nearest, hfirst]
  have hmatch : matchFrom? (found.filterMap id) range need cuts =
      matchFrom? (found.map (·.getD [])) range need cuts := by
    funext start
    unfold matchFrom?
    rw [hnearest]
  rw [spans, spans, hflatten, hmatch]

/-- A window needs spans of so many parts. -/
theorem spans_eq_nil {found : List (Option (List Span))} {range need : Nat} {cuts : List Span}
    (h : (found.filterMap id).length < need) : spans (found.filterMap id) range need cuts = [] := by
  refine List.filterMap_eq_nil_iff.mpr fun start _ => ?_
  have hshort : ((nearest (found.filterMap id) start).take need).length < need := by
    have hlength := List.length_filterMap_le (Span.firstFrom? start) (found.filterMap id)
    rw [List.length_take, nearest, List.length_mergeSort]
    omega
  unfold matchFrom?
  dsimp only
  split
  · rfl
  · rw [if_pos (.inl hshort)]

end Window

namespace Crew

open Cursor (Reached Lawful Seek)

variable {parts : List Plan} {delimiter : Option Plan}

/-! ## Walks of the parts -/

theorem document_walk (c : Cursor) : c.walk.2.document = c.document := by
  obtain ⟨s, hs⟩ := c.walk_snd
  rw [hs]

theorem Known.walk {n : Nat} {p : Plan} {part : Cursor × Standing} (h : Known n p part) :
    Known n p (part.1.walk.2, part.2) where
  reached := h.reached.walk
  standing := by
    rw [document_walk]
    exact h.standing
  nearest := by
    rw [document_walk]
    exact h.nearest

/-- All parts stand on the document, and bring their spans in it. -/
theorem walkAll_spec {d : Nat} {crew : Crew Cursor} (hlaw : ∀ p ∈ parts, Lawful p)
    (hp : ∀ p ∈ parts, p.Proper) (h : Seated (SeatOn d) parts delimiter crew) :
    crew.walkAll.1 = parts.map (·.spansAt d) ∧ Seated Seat parts delimiter crew.walkAll.2 := by
  obtain ⟨hparts, hdelimiter⟩ := h
  have hspans : crew.parts.map (·.1.walk.1) = parts.map (·.spansAt d) := by
    clear hdelimiter
    generalize crew.parts = cursors at hparts
    induction hparts with
    | nil => rfl
    | @cons p part parts cursors hfirst _ ih =>
        obtain ⟨hreached, hdoc⟩ := hfirst
        obtain ⟨hlawFirst, hlawRest⟩ := List.forall_mem_cons.mp hlaw
        obtain ⟨hpFirst, hpRest⟩ := List.forall_mem_cons.mp hp
        rw [List.map_cons, List.map_cons, ih hlawRest hpRest, hlawFirst.walk_fst hpFirst hreached hdoc]
  refine ⟨hspans, ?_, hdelimiter⟩
  exact List.forall₂_map_right_iff.mpr (hparts.imp fun p part hseat => hseat.1.walk)

/-- The parts that stand on the document are those that have it, and bring their matches. -/
theorem walkOn_spec {d : Nat} {crew : Crew Cursor} (hlaw : ∀ p ∈ parts, Lawful p)
    (hp : ∀ p ∈ parts, p.Proper) (h : OnAny parts delimiter d crew) :
    (crew.walkOn d).1 = (parts.map (Plan.matchesAt d)).filterMap id ∧
      BeforeAny parts delimiter (crew.walkOn d).2 := by
  obtain ⟨hparts, hdelimiter⟩ := h
  have hspans : (crew.parts.filter (·.2 = .on d)).map (·.1.walk.1) =
      (parts.map (Plan.matchesAt d)).filterMap id := by
    clear hdelimiter
    generalize crew.parts = cursors at hparts
    induction hparts with
    | nil => rfl
    | @cons p part parts cursors hfirst _ ih =>
        obtain ⟨hknown, hon⟩ := hfirst
        obtain ⟨hlawFirst, hlawRest⟩ := List.forall_mem_cons.mp hlaw
        obtain ⟨hpFirst, hpRest⟩ := List.forall_mem_cons.mp hp
        have hrest := ih hlawRest hpRest
        by_cases hthere : part.2 = .on d
        · have hmatches := Plan.matchesAt_of_presentAt (hon.mp hthere)
          have hdoc : part.1.document = some d := by
            have hstanding := hknown.standing
            rw [hthere] at hstanding
            cases hdoc : part.1.document <;> simp_all [Standing.ofDocument]
          rw [List.filter_cons_of_pos (by simpa using hthere), List.map_cons, hrest, List.map_cons,
            hmatches, hlawFirst.walk_fst hpFirst hknown.reached hdoc]
          rfl
        · have habsent : p.matchesAt d = none := by
            have := mt hon.mpr hthere
            rwa [Plan.presentAt, Option.not_isSome_iff_eq_none] at this
          rw [List.filter_cons_of_neg (by simpa using hthere), hrest, List.map_cons, habsent]
          rfl
  refine ⟨hspans, ?_, hdelimiter⟩
  refine List.forall₂_map_right_iff.mpr (hparts.imp fun p part hseat => ?_)
  split
  · exact .inr hseat.1.walk
  · exact .inr hseat.1

/-- As many parts stand on the document as have it. -/
theorem presence_eq {d : Nat} {crew : Crew Cursor} (hlaw : ∀ p ∈ parts, Lawful p)
    (hp : ∀ p ∈ parts, p.Proper) (h : OnAny parts delimiter d crew) :
    crew.presence d = ((parts.map (Plan.matchesAt d)).filterMap id).length := by
  rw [← (walkOn_spec hlaw hp h).1, walkOn, List.length_map, presence, List.countP_eq_length_filter]

/-- The delimiter brings its spans, and nothing else of the crew moves. -/
theorem cuts_spec {seat : Plan → Cursor × Standing → Prop} {d : Nat} {crew : Crew Cursor}
    (hlaw : ∀ p ∈ delimiter, Lawful p) (hp : ∀ p ∈ delimiter, p.Proper) (hd : 1 ≤ d)
    (h : Seated seat parts delimiter crew) :
    (crew.cuts (delimiter.map Cursor.seek) d).1 = (delimiter.map (·.spansAt d)).getD [] ∧
      (crew.cuts (delimiter.map Cursor.seek) d).2.target = crew.target ∧
      Seated seat parts delimiter (crew.cuts (delimiter.map Cursor.seek) d).2 := by
  obtain ⟨cursors, target, delimiterCursor⟩ := crew
  obtain ⟨hparts, hdelimiter⟩ := h
  dsimp only at hdelimiter
  cases hdelimiter with
  | none => exact ⟨rfl, rfl, hparts, Option.Rel.none⟩
  | @some p c hreached =>
      obtain ⟨hspans, hlast⟩ := (hlaw p rfl).matchesIn (hp p rfl) hreached hd
      exact ⟨hspans, rfl, hparts, Option.Rel.some hlast⟩

/-! ## Landings -/

/-- Enough parts on the candidate are a match of their union. -/
theorem landPresence_lands (hlaw : ∀ p ∈ parts, Lawful p) (hp : ∀ p ∈ parts, p.Proper)
    (need : Nat) :
    Lands (landPresence need) (BeforeAny parts delimiter) (OnAny parts delimiter)
      (fun d => Plan.gather need (parts.map (Plan.matchesAt d))) := by
  intro crew d hd hon
  have hcount := presence_eq hlaw hp hon
  obtain ⟨hspans, hbefore⟩ := walkOn_spec hlaw hp hon
  unfold landPresence Plan.gather
  rw [hcount]
  dsimp only
  split
  · exact ⟨by rw [hspans], hbefore⟩
  · exact ⟨rfl, hon.parts.imp fun p part h => .inr h.1, hon.delimiter⟩

theorem landIntersection_lands (hlaw : ∀ p ∈ parts, Lawful p) (hp : ∀ p ∈ parts, p.Proper) :
    Lands landIntersection (Seated Seat parts delimiter) (fun d => Seated (SeatOn d) parts delimiter)
      (Plan.intersection parts).matchesAt := by
  intro crew d hd hon
  obtain ⟨hspans, hbefore⟩ := walkAll_spec hlaw hp hon
  refine ⟨?_, hbefore⟩
  beta_reduce
  rw [Plan.matchesAt, Plan.matchesOfAll_eq, Plan.getD_matchesAt, ← hspans]
  rfl

theorem landSequence_lands (hlaw : ∀ p ∈ parts, Lawful p) (hp : ∀ p ∈ parts, p.Proper)
    (hlawCut : ∀ p ∈ delimiter, Lawful p) (hpCut : ∀ p ∈ delimiter, p.Proper) (mode : Succession) :
    Lands (landSequence mode (delimiter.map Cursor.seek)) (Seated Seat parts delimiter)
      (fun d => Seated (SeatOn d) parts delimiter)
      (Plan.sequence mode parts delimiter).matchesAt := by
  intro crew d hd hon
  obtain ⟨hspans, hbefore⟩ := walkAll_spec hlaw hp hon
  obtain ⟨hcuts, -, hafter⟩ := cuts_spec hlawCut hpCut hd hbefore
  refine ⟨?_, hafter⟩
  beta_reduce
  rw [Plan.matchesAt, Plan.matchesOfAll_eq, Plan.getD_matchesAt, Plan.cutsAt_eq, ← hspans, ← hcuts]
  rfl

theorem landWindow_lands (hlaw : ∀ p ∈ parts, Lawful p) (hp : ∀ p ∈ parts, p.Proper)
    (hlawCut : ∀ p ∈ delimiter, Lawful p) (hpCut : ∀ p ∈ delimiter, p.Proper) (range need : Nat) :
    Lands (landWindow range need (delimiter.map Cursor.seek)) (BeforeAny parts delimiter)
      (OnAny parts delimiter) (Plan.window range need parts delimiter).matchesAt := by
  intro crew d hd hon
  have hcount := presence_eq hlaw hp hon
  obtain ⟨hspans, hbefore⟩ := walkOn_spec hlaw hp hon
  obtain ⟨hcuts, htarget, hafter⟩ := cuts_spec hlawCut hpCut hd hbefore
  unfold landWindow
  beta_reduce
  rw [Plan.matchesAt, Plan.matchesOfAll_eq, Plan.cutsAt_eq, ← Window.spans_present, hcount]
  split
  · dsimp only
    rw [hspans, hcuts]
    refine ⟨rfl, ?_⟩
    rw [BeforeAny, htarget]
    exact hafter
  · next hfew =>
      rw [Window.spans_eq_nil (Nat.not_le.mp hfew)]
      exact ⟨rfl, hon.parts.imp fun p part h => .inr h.1, hon.delimiter⟩

theorem landInside_lands {inner outer : Plan} (hlaw : ∀ p ∈ [inner, outer], Lawful p)
    (hp : ∀ p ∈ [inner, outer], p.Proper) :
    Lands landInside (Seated Seat [inner, outer] delimiter)
      (fun d => Seated (SeatOn d) [inner, outer] delimiter) (Plan.inside inner outer).matchesAt := by
  intro crew d hd hon
  obtain ⟨hspans, hbefore⟩ := walkAll_spec hlaw hp hon
  unfold landInside
  cases hwalk : crew.walkAll with
  | mk spans crew' =>
      rw [hwalk] at hspans hbefore
      dsimp only at hspans
      subst hspans
      exact ⟨rfl, hbefore⟩

theorem landDifference_lands {kept dropped : Plan} (hlaw : Lawful kept) (hp : kept.Proper)
    (hlawDropped : Lawful dropped) (hpDropped : dropped.Proper) :
    Lands (landDifference (Cursor.seek dropped)) (Seated Seat [kept, dropped] none)
      (OnFirst kept dropped) (Plan.difference kept dropped).matchesAt := by
  rintro ⟨cursors, target, delimiter⟩ d hd ⟨⟨hparts, hdelimiter⟩, hdoc⟩
  cases hparts with
  | @cons _ part _ _ hfirst hrest =>
      cases hrest with
      | @cons _ part' _ _ hsecond hnil =>
          cases hnil
          have hspans := hlaw.walk_fst hp hfirst (hdoc part rfl)
          obtain ⟨hexcluded, hlast⟩ := hlawDropped.matchesIn hpDropped hsecond hd
          refine ⟨?_, List.Forall₂.cons hfirst.walk (List.Forall₂.cons hlast List.Forall₂.nil),
            hdelimiter⟩
          beta_reduce
          rw [Plan.matchesAt, landDifference]
          dsimp only
          rw [hspans, hexcluded]
          rfl

theorem landField_lands (table : Table) (start stop maxNumber total : Nat)
    (before : Crew Cursor → Prop) :
    Lands (landField table start stop) before (fun d crew => d ≤ maxNumber ∧ before crew)
      (Plan.field start stop table maxNumber total).matchesAt := by
  rintro crew d - ⟨hle, hbefore⟩
  refine ⟨?_, hbefore⟩
  beta_reduce
  rw [Plan.matchesAt, if_pos hle]
  rfl

theorem leapNumbers_leaps (bound : Nat) (before : Crew Cursor → Prop) :
    Leaps (leapNumbers bound) before (fun d crew => d ≤ bound ∧ before crew) (· ≤ bound) := by
  intro crew n hn hbefore
  unfold leapNumbers
  by_cases hle : n ≤ bound
  · rw [if_pos hle]
    exact ⟨⟨Nat.le_refl n, hle, fun e he hlt => by omega⟩, hle, hbefore⟩
  · rw [if_neg hle]
    exact ⟨fun e he => by omega, hbefore⟩

end Crew

end Concordance
