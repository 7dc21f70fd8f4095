import Concordance.Proofs.Query.Span
import Concordance.Query.Plan

/-!
# What a plan finds in a document

Every plan that can be built from posting lists and lists of documents in ascending order is proper.
In a document it finds matches in the form of `Span.AreMatches`, at every depth
(`areMatches_spansAt`), and it finds nothing in documents above its bound
(`le_bound_of_presentAt`). Statements about all plans are proved by `Plan.induct`, whose cases see
the parts of a structure as members of a list.
-/

namespace Concordance

/-- Positions of a term in a document, strictly ascending. -/
structure ArePositions (positions : List Nat) : Prop where
  ascend : positions.Pairwise (· < ·)
  range : ∀ p ∈ positions, 1 ≤ p ∧ p ≤ Wire.maxWord32

instance (positions : List Nat) : Decidable (ArePositions positions) :=
  decidable_of_iff (positions.Pairwise (· < ·) ∧ ∀ p ∈ positions, 1 ≤ p ∧ p ≤ Wire.maxWord32)
    ⟨fun ⟨hascend, hrange⟩ => ⟨hascend, hrange⟩, fun ⟨hascend, hrange⟩ => ⟨hascend, hrange⟩⟩

namespace Plan

/-- Induction over a plan, with a hypothesis for every part and for the delimiter. -/
@[elab_as_elim]
theorem induct {motive : Plan → Prop} (nothing : motive .nothing)
    (term : ∀ postings, motive (.term postings))
    (field : ∀ start stop table maxNumber total, motive (.field start stop table maxNumber total))
    (access : ∀ lists, motive (.access lists))
    (documents : ∀ numbers, motive (.documents numbers))
    (restricted : ∀ inner table tests, motive inner → motive (.restricted inner table tests))
    (union : ∀ parts, (∀ q ∈ parts, motive q) → motive (.union parts))
    (intersection : ∀ parts, (∀ q ∈ parts, motive q) → motive (.intersection parts))
    (presence : ∀ need parts, (∀ q ∈ parts, motive q) → motive (.presence need parts))
    (difference : ∀ kept dropped, motive kept → motive dropped → motive (.difference kept dropped))
    (inside : ∀ inner outer, motive inner → motive outer → motive (.inside inner outer))
    (sequence : ∀ mode parts delimiter, (∀ q ∈ parts, motive q) → (∀ q ∈ delimiter, motive q) →
      motive (.sequence mode parts delimiter))
    (window : ∀ range need parts delimiter, (∀ q ∈ parts, motive q) →
      (∀ q ∈ delimiter, motive q) → motive (.window range need parts delimiter))
    (p : Plan) : motive p :=
  @Plan.rec motive (fun parts => ∀ q ∈ parts, motive q) (fun delimiter => ∀ q ∈ delimiter, motive q)
    nothing term field access documents restricted union intersection presence difference inside
    sequence window (by simp) (fun _ _ hfirst hrest => List.forall_mem_cons.mpr ⟨hfirst, hrest⟩)
    (by simp) (fun _ hq => by simpa using hq) p

@[simp] theorem matchesOfAll_eq (d : Nat) (parts : List Plan) :
    matchesOfAll d parts = parts.map (matchesAt d) := by
  induction parts with
  | nil => rfl
  | cons p rest ih => rw [matchesOfAll, ih, List.map_cons]

@[simp] theorem cutsAt_eq (d : Nat) (delimiter : Option Plan) :
    cutsAt d delimiter = (delimiter.map (·.spansAt d)).getD [] := by
  cases delimiter <;> rfl

/-- The spans of parts in a document, part by part. -/
theorem getD_matchesAt (d : Nat) (parts : List Plan) :
    (parts.map (matchesAt d)).map (·.getD []) = parts.map (·.spansAt d) := by
  rw [List.map_map]
  rfl

theorem spansAt_of_matchesAt {p : Plan} {d : Nat} {spans : List Span}
    (h : p.matchesAt d = some spans) : p.spansAt d = spans := by
  rw [spansAt, h, Option.getD_some]

theorem matchesAt_of_presentAt {p : Plan} {d : Nat} (h : p.presentAt d = true) :
    p.matchesAt d = some (p.spansAt d) := by
  obtain ⟨spans, hspans⟩ := Option.isSome_iff_exists.mp h
  rw [spansAt_of_matchesAt hspans, hspans]

theorem presentAt_of_mem_spansAt {p : Plan} {d : Nat} {s : Span} (h : s ∈ p.spansAt d) :
    p.presentAt d = true := by
  unfold spansAt at h
  unfold presentAt
  cases hmatches : p.matchesAt d with
  | none => simp [hmatches] at h
  | some spans => rfl

@[simp] theorem getD_nonEmpty (spans : List Span) : (nonEmpty spans).getD [] = spans := by
  cases spans <;> rfl

theorem exists_mem_of_nonEmpty {spans : List Span} (h : (nonEmpty spans).isSome = true) :
    ∃ s, s ∈ spans := by
  cases spans with
  | nil => simp [nonEmpty] at h
  | cons s rest => exact ⟨s, List.mem_cons_self⟩

theorem gather_eq_some {need : Nat} {found : List (Option (List Span))} {spans : List Span} :
    gather need found = some spans ↔
      need ≤ (found.filterMap id).length ∧ Span.normalize (found.filterMap id).flatten = spans := by
  simp [gather]

/-! ## Proper plans -/

mutual

/-- Whether all lists that a plan is built on ascend, and counts of parts are not zero. -/
def Proper : Plan → Prop
  | .nothing | .field .. => True
  | .term postings => ∀ e ∈ postings.toList, ArePositions e.2
  | .access lists => ∀ l ∈ lists, l.Pairwise (· < ·)
  | .documents numbers => numbers.Pairwise (· < ·)
  | .restricted inner _ _ => Proper inner
  | .union parts | .intersection parts => ProperAll parts
  | .presence need parts => 1 ≤ need ∧ ProperAll parts
  | .difference kept dropped => Proper kept ∧ Proper dropped
  | .inside inner outer => Proper inner ∧ Proper outer
  | .sequence _ parts delimiter | .window _ _ parts delimiter =>
    ProperAll parts ∧ ProperOf delimiter

def ProperAll : List Plan → Prop
  | [] => True
  | p :: rest => Proper p ∧ ProperAll rest

def ProperOf : Option Plan → Prop
  | none => True
  | some p => Proper p

end

@[simp] theorem properAll_iff {parts : List Plan} : ProperAll parts ↔ ∀ p ∈ parts, p.Proper := by
  induction parts with
  | nil => simp [ProperAll]
  | cons p rest ih => simp [ProperAll, ih]

@[simp] theorem properOf_iff {delimiter : Option Plan} :
    ProperOf delimiter ↔ ∀ p ∈ delimiter, p.Proper := by
  cases delimiter <;> simp [ProperOf]

theorem proper_ofDocuments (numbers : List Nat) : (ofDocuments numbers).Proper := ascending_lt _

theorem proper_ofPresence {cardinality : Nat} {parts : List Plan} (h : ∀ p ∈ parts, p.Proper) :
    (ofPresence cardinality parts).Proper :=
  ⟨Nat.le_max_right cardinality 1, properAll_iff.mpr h⟩

/-! ## Matches -/

/-- The spans of a term are its positions. -/
theorem termSpans_eq {positions : List Nat} (h : ArePositions positions) :
    termSpans positions = positions.map fun p => ⟨p, 1⟩ := by
  have hall : positions.filter (1 ≤ ·) = positions :=
    List.filter_eq_self.mpr fun p hp => by simpa using (h.range p hp).1
  rw [termSpans, hall]

theorem areMatches_positions {positions : List Nat} (h : ArePositions positions) :
    Span.AreMatches (positions.map fun p => (⟨p, 1⟩ : Span)) where
  ascend := List.pairwise_map.mpr h.ascend
  position s hs := by
    obtain ⟨p, hp, rfl⟩ := List.mem_map.mp hs
    exact h.range p hp

theorem columnPosition?_range {table : Table} {number column p : Nat}
    (h : columnPosition? table number column = some p) : 1 ≤ p ∧ p ≤ Wire.maxWord32 := by
  unfold columnPosition? at h
  split at h
  · next n _ =>
      split at h
      · cases h
        refine ⟨Nat.le_min.mpr ⟨?_, by decide⟩, Nat.min_le_right _ _⟩
        omega
      · cases h
  · cases h

theorem fieldSpan?_start {table : Table} {number start stop : Nat} {s : Span}
    (h : fieldSpan? table number start stop = some s) :
    columnPosition? table number start = some s.start := by
  unfold fieldSpan? at h
  split at h
  · cases h
  · next first hfirst =>
      split at h
      · cases h
        exact hfirst
      · split at h
        · cases h
          exact hfirst
        · cases h

theorem areMatches_field {table : Table} {number start stop : Nat} {s : Span}
    (h : fieldSpan? table number start stop = some s) : Span.AreMatches [s] where
  ascend := List.pairwise_singleton _ _
  position t ht := by
    rw [List.mem_singleton.mp ht]
    exact columnPosition?_range (fieldSpan?_start h)

/-- A shared span is a span of the first part and starts where each other part has a span. -/
theorem mem_sharedSpans {first : List Span} {rest : List (List Span)} {s : Span}
    (h : s ∈ sharedSpans (first :: rest)) :
    s ∈ first ∧ ∀ spans ∈ rest, ∃ t ∈ spans, t.start = s.start := by
  have hs := (Span.mem_normalize.mp h).1
  simpa using hs

/-- Spans that each belong to the matches of some part are in the range of positions. -/
theorem range_of_parts {d : Nat} {parts : List Plan}
    (ih : ∀ q ∈ parts, Span.AreMatches (q.spansAt d)) {spans : List Span}
    (hspans : spans ∈ parts.map (·.spansAt d)) {s : Span} (hs : s ∈ spans) :
    1 ≤ s.start ∧ s.start ≤ Wire.maxWord32 := by
  obtain ⟨q, hq, rfl⟩ := List.mem_map.mp hspans
  exact (ih q hq).position s hs

/-- What is gathered of parts are spans of parts. -/
theorem mem_part_of_gather {d need : Nat} {parts : List Plan} {s : Span}
    (hs : s ∈ (gather need (parts.map (matchesAt d))).getD []) : ∃ q ∈ parts, s ∈ q.spansAt d := by
  cases hgather : gather need (parts.map (matchesAt d)) with
  | none => simp [hgather] at hs
  | some spans =>
      obtain ⟨-, rfl⟩ := gather_eq_some.mp hgather
      rw [hgather, Option.getD_some] at hs
      obtain ⟨found, hfound, hs⟩ := List.mem_flatten.mp (Span.mem_normalize.mp hs).1
      obtain ⟨_, hmem, rfl⟩ := List.mem_filterMap.mp hfound
      obtain ⟨q, hq, hmatches⟩ := List.mem_map.mp hmem
      exact ⟨q, hq, spansAt_of_matchesAt hmatches ▸ hs⟩

theorem areMatches_gather {d need : Nat} {parts : List Plan} {spans : List Span}
    (ih : ∀ q ∈ parts, Span.AreMatches (q.spansAt d))
    (h : gather need (parts.map (matchesAt d)) = some spans) : Span.AreMatches spans := by
  have hrange : ∀ s ∈ spans, 1 ≤ s.start ∧ s.start ≤ Wire.maxWord32 := by
    intro s hs
    obtain ⟨q, hq, hs⟩ := mem_part_of_gather (show s ∈ (gather need _).getD [] by rwa [h])
    exact (ih q hq).position s hs
  obtain ⟨-, rfl⟩ := gather_eq_some.mp h
  exact ⟨Span.startsAscend_normalize _, hrange⟩

/-- What a proper plan finds in a document has the form of matches, also if it finds nothing. -/
theorem areMatches_spansAt {p : Plan} (hp : p.Proper) (d : Nat) :
    Span.AreMatches (p.spansAt d) := by
  induction p using Plan.induct with
  | nothing => exact Span.areMatches_nil
  | term postings =>
      simp only [spansAt, matchesAt]
      cases hget : postings.get? d with
      | none => exact Span.areMatches_nil
      | some positions =>
          have hpositions := hp (d, positions) (SortedMap.mem_toList.mpr hget)
          rw [Option.map_some, Option.getD_some, termSpans_eq hpositions]
          exact areMatches_positions hpositions
  | field start stop table maxNumber total =>
      simp only [spansAt, matchesAt]
      split
      · cases hfield : fieldSpan? table d start stop with
        | none => exact Span.areMatches_nil
        | some s => exact areMatches_field hfield
      · exact Span.areMatches_nil
  | access lists =>
      simp only [spansAt, matchesAt]
      split <;> exact Span.areMatches_nil
  | documents numbers =>
      simp only [spansAt, matchesAt]
      split <;> exact Span.areMatches_nil
  | restricted inner table tests ih =>
      simp only [spansAt, matchesAt]
      split
      · exact ih hp
      · exact Span.areMatches_nil
  | union parts ih =>
      rw [Proper, properAll_iff] at hp
      rw [spansAt, matchesAt, matchesOfAll_eq]
      cases hgather : gather 1 (parts.map (matchesAt d)) with
      | none => exact Span.areMatches_nil
      | some spans => exact areMatches_gather (fun q hq => ih q hq (hp q hq)) hgather
  | presence need parts ih =>
      rw [Proper, properAll_iff] at hp
      rw [spansAt, matchesAt, matchesOfAll_eq]
      cases hgather : gather need (parts.map (matchesAt d)) with
      | none => exact Span.areMatches_nil
      | some spans => exact areMatches_gather (fun q hq => ih q hq (hp.2 q hq)) hgather
  | intersection parts ih =>
      rw [Proper, properAll_iff] at hp
      rw [spansAt, matchesAt, matchesOfAll_eq, getD_matchesAt]
      rw [getD_nonEmpty]
      cases parts with
      | nil => exact Span.areMatches_nil
      | cons first rest =>
          refine Span.areMatches_normalize fun s hs => ?_
          exact (ih first List.mem_cons_self (hp first List.mem_cons_self)).position s
            (List.mem_filter.mp hs).1
  | difference kept dropped ihKept _ =>
      rw [spansAt, matchesAt, getD_nonEmpty]
      exact (ihKept hp.1).filter _
  | inside inner outer ihInner _ =>
      rw [spansAt, matchesAt, getD_nonEmpty]
      exact (ihInner hp.1).filter _
  | sequence mode parts delimiter ih _ =>
      rw [Proper, properAll_iff] at hp
      rw [spansAt, matchesAt, matchesOfAll_eq, getD_matchesAt, getD_nonEmpty]
      refine Span.areMatches_normalize fun s hs => ?_
      obtain ⟨spans, hspans, first, hfirst, hstart⟩ := Span.exists_of_mem_sequence hs
      rw [← hstart]
      exact range_of_parts (fun q hq => ih q hq (hp.1 q hq)) hspans hfirst
  | window range need parts delimiter ih _ =>
      rw [Proper, properAll_iff] at hp
      rw [spansAt, matchesAt, matchesOfAll_eq, getD_matchesAt, getD_nonEmpty]
      refine Span.areMatches_window range need _ fun spans hspans => ?_
      obtain ⟨q, hq, rfl⟩ := List.mem_map.mp hspans
      exact ih q hq (hp.1 q hq)

/-- Every span of a plan starts behind position 0. -/
theorem one_le_start {p : Plan} {d : Nat} {s : Span} (hs : s ∈ p.spansAt d) : 1 ≤ s.start := by
  induction p using Plan.induct generalizing s with
  | nothing => simp [spansAt, matchesAt] at hs
  | term postings =>
      simp only [spansAt, matchesAt] at hs
      cases hget : postings.get? d with
      | none => simp [hget] at hs
      | some positions =>
          rw [hget, Option.map_some, Option.getD_some, termSpans] at hs
          obtain ⟨position, hposition, rfl⟩ := List.mem_map.mp hs
          simpa using (List.mem_filter.mp hposition).2
  | field start stop table maxNumber total =>
      simp only [spansAt, matchesAt] at hs
      split at hs
      · cases hfield : fieldSpan? table d start stop with
        | none => simp [hfield] at hs
        | some field =>
            rw [hfield, Option.map_some, Option.getD_some, List.mem_singleton] at hs
            rw [hs]
            exact (columnPosition?_range (fieldSpan?_start hfield)).1
      · simp at hs
  | access lists | documents numbers =>
      simp only [spansAt, matchesAt] at hs
      split at hs <;> simp at hs
  | restricted inner table tests ih =>
      simp only [spansAt, matchesAt] at hs
      split at hs
      · exact ih hs
      · simp at hs
  | union parts ih | presence need parts ih =>
      rw [spansAt, matchesAt, matchesOfAll_eq] at hs
      obtain ⟨q, hq, hs⟩ := mem_part_of_gather hs
      exact ih q hq hs
  | intersection parts ih =>
      rw [spansAt, matchesAt, matchesOfAll_eq, getD_matchesAt, getD_nonEmpty] at hs
      cases parts with
      | nil => simp [sharedSpans] at hs
      | cons first rest => exact ih first List.mem_cons_self (mem_sharedSpans hs).1
  | difference kept dropped ihKept _ =>
      rw [spansAt, matchesAt, getD_nonEmpty] at hs
      exact ihKept (List.mem_filter.mp hs).1
  | inside inner outer ihInner _ =>
      rw [spansAt, matchesAt, getD_nonEmpty] at hs
      exact ihInner (List.mem_filter.mp hs).1
  | sequence mode parts delimiter ih _ =>
      rw [spansAt, matchesAt, matchesOfAll_eq, getD_matchesAt, getD_nonEmpty] at hs
      obtain ⟨spans, hspans, first, hfirst, hstart⟩ :=
        Span.exists_of_mem_sequence (Span.mem_normalize.mp hs).1
      obtain ⟨q, hq, rfl⟩ := List.mem_map.mp hspans
      exact hstart ▸ ih q hq hfirst
  | window range need parts delimiter ih _ =>
      rw [spansAt, matchesAt, matchesOfAll_eq, getD_matchesAt, getD_nonEmpty] at hs
      obtain ⟨spans, hspans, first, hfirst, hstart⟩ := Span.exists_of_mem_window hs
      obtain ⟨q, hq, rfl⟩ := List.mem_map.mp hspans
      exact hstart ▸ ih q hq hfirst

/-! ## Bounds -/

theorem bound_le_boundOfAll {parts : List Plan} {p : Plan} (h : p ∈ parts) :
    p.bound ≤ boundOfAll parts := by
  induction parts with
  | nil => cases h
  | cons q rest ih =>
      rw [boundOfAll]
      rcases List.mem_cons.mp h with rfl | h
      · exact Nat.le_max_left _ _
      · exact Nat.le_trans (ih h) (Nat.le_max_right _ _)

theorem le_foldl_max {l : List Nat} {n : Nat} (h : n ∈ l) : n ≤ l.foldl max 0 := by
  have hstep : ∀ (rest : List Nat) (m : Nat), m ≤ rest.foldl max m := by
    intro rest
    induction rest with
    | nil => exact fun m => Nat.le_refl m
    | cons a rest ih => exact fun m => Nat.le_trans (Nat.le_max_left m a) (ih (max m a))
  have hmem : ∀ (rest : List Nat) (m : Nat), n ∈ rest → n ≤ rest.foldl max m := by
    intro rest
    induction rest with
    | nil => simp
    | cons a rest ih =>
        intro m hn
        rcases List.mem_cons.mp hn with rfl | hn
        · exact Nat.le_trans (Nat.le_max_right m n) (hstep rest (max m n))
        · exact ih (max m a) hn
  exact hmem l 0 h

/-- A document of a union is a document of some part. -/
theorem exists_part_of_gather {d need : Nat} {parts : List Plan} (hneed : 1 ≤ need)
    (h : (gather need (parts.map (matchesAt d))).isSome = true) :
    ∃ q ∈ parts, q.presentAt d = true := by
  obtain ⟨spans, hspans⟩ := Option.isSome_iff_exists.mp h
  obtain ⟨hlength, -⟩ := gather_eq_some.mp hspans
  obtain ⟨found, hfound⟩ := List.exists_mem_of_length_pos (Nat.lt_of_lt_of_le hneed hlength)
  obtain ⟨_, hmem, rfl⟩ := List.mem_filterMap.mp hfound
  obtain ⟨q, hq, hmatches⟩ := List.mem_map.mp hmem
  exact ⟨q, hq, Option.isSome_iff_exists.mpr ⟨found, hmatches⟩⟩

/-- A document of an intersection is a document of every part, and there are parts. -/
theorem all_parts_of_intersection {d : Nat} {parts : List Plan}
    (h : (Plan.intersection parts).presentAt d = true) :
    parts ≠ [] ∧ ∀ q ∈ parts, q.presentAt d = true := by
  rw [presentAt, matchesAt, matchesOfAll_eq, getD_matchesAt] at h
  obtain ⟨s, hs⟩ := exists_mem_of_nonEmpty h
  cases parts with
  | nil => cases hs
  | cons first rest =>
      obtain ⟨hfirst, hrest⟩ := mem_sharedSpans hs
      refine ⟨List.cons_ne_nil _ _, List.forall_mem_cons.mpr ⟨presentAt_of_mem_spansAt hfirst, ?_⟩⟩
      intro q hq
      obtain ⟨t, ht, -⟩ := hrest (q.spansAt d) (List.mem_map.mpr ⟨q, hq, rfl⟩)
      exact presentAt_of_mem_spansAt ht

theorem kept_of_difference {d : Nat} {kept dropped : Plan}
    (h : (Plan.difference kept dropped).presentAt d = true) : kept.presentAt d = true := by
  rw [presentAt, matchesAt] at h
  obtain ⟨s, hs⟩ := exists_mem_of_nonEmpty h
  exact presentAt_of_mem_spansAt (List.mem_filter.mp hs).1

theorem both_of_inside {d : Nat} {inner outer : Plan}
    (h : (Plan.inside inner outer).presentAt d = true) :
    inner.presentAt d = true ∧ outer.presentAt d = true := by
  rw [presentAt, matchesAt] at h
  obtain ⟨s, hs⟩ := exists_mem_of_nonEmpty h
  obtain ⟨hinner, houter⟩ := List.mem_filter.mp hs
  obtain ⟨t, ht, -⟩ := List.any_eq_true.mp houter
  exact ⟨presentAt_of_mem_spansAt hinner, presentAt_of_mem_spansAt ht⟩

/-- A document of a sequence is a document of every part, and there are parts. -/
theorem all_parts_of_sequence {d : Nat} {mode : Succession} {parts : List Plan}
    {delimiter : Option Plan} (h : (Plan.sequence mode parts delimiter).presentAt d = true) :
    parts ≠ [] ∧ ∀ q ∈ parts, q.presentAt d = true := by
  rw [presentAt, matchesAt, matchesOfAll_eq, getD_matchesAt] at h
  obtain ⟨s, hs⟩ := exists_mem_of_nonEmpty h
  have hs := (Span.mem_normalize.mp hs).1
  constructor
  · rintro rfl
    cases hs
  · intro q hq
    obtain ⟨t, ht⟩ := Span.exists_mem_of_sequence hs (q.spansAt d) (List.mem_map.mpr ⟨q, hq, rfl⟩)
    exact presentAt_of_mem_spansAt ht

/-- A document of a window is a document of some part. -/
theorem exists_part_of_window {d range need : Nat} {parts : List Plan} {delimiter : Option Plan}
    (h : (Plan.window range need parts delimiter).presentAt d = true) :
    ∃ q ∈ parts, q.presentAt d = true := by
  rw [presentAt, matchesAt, matchesOfAll_eq, getD_matchesAt] at h
  obtain ⟨s, hs⟩ := exists_mem_of_nonEmpty h
  obtain ⟨spans, hspans, t, ht, -⟩ := Span.exists_of_mem_window hs
  obtain ⟨q, hq, rfl⟩ := List.mem_map.mp hspans
  exact ⟨q, hq, presentAt_of_mem_spansAt ht⟩

/-- No document of a proper plan is above its bound. -/
theorem le_bound_of_presentAt {p : Plan} (hp : p.Proper) {d : Nat} (h : p.presentAt d = true) :
    d ≤ p.bound := by
  have hparts : ∀ {parts : List Plan}, (∀ q ∈ parts, q.Proper) →
      (∀ q ∈ parts, q.Proper → q.presentAt d = true → d ≤ q.bound) →
      (∃ q ∈ parts, q.presentAt d = true) → d ≤ boundOfAll parts := by
    rintro parts hproper ih ⟨q, hq, hpresent⟩
    exact Nat.le_trans (ih q hq (hproper q hq) hpresent) (bound_le_boundOfAll hq)
  have hsome : ∀ {parts : List Plan}, parts ≠ [] → (∀ q ∈ parts, q.presentAt d = true) →
      ∃ q ∈ parts, q.presentAt d = true := by
    intro parts hne hall
    obtain ⟨q, hq⟩ := List.exists_mem_of_ne_nil parts hne
    exact ⟨q, hq, hall q hq⟩
  induction p using Plan.induct with
  | nothing => cases h
  | term postings =>
      rw [presentAt, matchesAt, Option.isSome_map] at h
      obtain ⟨positions, hget⟩ := Option.isSome_iff_exists.mp h
      have hmem := SortedMap.get?_eq_some_iff.mp hget
      exact le_foldl_max (List.mem_map.mpr ⟨_, hmem, rfl⟩)
  | field start stop table maxNumber total =>
      rw [presentAt, matchesAt] at h
      split at h
      · assumption
      · cases h
  | access lists =>
      rw [presentAt, matchesAt] at h
      split at h
      · next hany =>
          obtain ⟨l, hl, hcontains⟩ := List.any_eq_true.mp hany
          exact le_foldl_max (List.mem_flatten.mpr ⟨l, hl, List.contains_iff_mem.mp hcontains⟩)
      · cases h
  | documents numbers =>
      rw [presentAt, matchesAt] at h
      split at h
      · next hcontains => exact le_foldl_max (List.contains_iff_mem.mp hcontains)
      · cases h
  | restricted inner table tests ih =>
      rw [presentAt, matchesAt] at h
      split at h
      · exact ih hp h
      · cases h
  | union parts ih =>
      rw [presentAt, matchesAt, matchesOfAll_eq] at h
      rw [Proper, properAll_iff] at hp
      exact hparts hp ih (exists_part_of_gather (Nat.le_refl 1) h)
  | presence need parts ih =>
      rw [presentAt, matchesAt, matchesOfAll_eq] at h
      rw [Proper, properAll_iff] at hp
      exact hparts hp.2 ih (exists_part_of_gather hp.1 h)
  | intersection parts ih =>
      obtain ⟨hne, hall⟩ := all_parts_of_intersection h
      rw [Proper, properAll_iff] at hp
      exact hparts hp ih (hsome hne hall)
  | difference kept dropped ih _ => exact ih hp.1 (kept_of_difference h)
  | inside inner outer ih _ => exact ih hp.1 (both_of_inside h).1
  | sequence mode parts delimiter ih _ =>
      obtain ⟨hne, hall⟩ := all_parts_of_sequence h
      rw [Proper, properAll_iff] at hp
      exact hparts hp.1 ih (hsome hne hall)
  | window range need parts delimiter ih _ =>
      rw [Proper, properAll_iff] at hp
      exact hparts hp.1 ih (exists_part_of_window h)

theorem le_boundOfAll_of_part {parts : List Plan} (hp : ∀ p ∈ parts, p.Proper) (d : Nat)
    (h : ∃ q ∈ parts, q.presentAt d = true) : d ≤ boundOfAll parts := by
  obtain ⟨q, hq, hpresent⟩ := h
  exact Nat.le_trans (le_bound_of_presentAt (hp q hq) hpresent) (bound_le_boundOfAll hq)

theorem le_boundOfAll_of_all {parts : List Plan} (hp : ∀ p ∈ parts, p.Proper) (hne : parts ≠ [])
    (d : Nat) (h : ∀ q ∈ parts, q.presentAt d = true) : d ≤ boundOfAll parts := by
  obtain ⟨q, hq⟩ := List.exists_mem_of_ne_nil parts hne
  exact le_boundOfAll_of_part hp d ⟨q, hq, h q hq⟩

end Plan

end Concordance
