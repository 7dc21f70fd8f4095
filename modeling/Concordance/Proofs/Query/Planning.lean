import Concordance.Proofs.Query.Arrangement
import Concordance.Proofs.Query.Plan
import Concordance.Proofs.Store.Published

/-!
# Plans of patterns

A pattern is refused exactly when it is malformed (`Pattern.plan_error_iff`). The plan of a pattern
that is not means what the pattern means: it is proper, its spans in a document are the meaning, and
it is present only in stored documents where there are spans (`Pattern.Renders`). Each operator is
looked at once, with plans for its parts (`Pattern.means_join`); the rest is an induction over the
pattern.
-/

namespace Concordance

namespace Pattern

/-- Induction over a pattern, with a hypothesis for every part. -/
@[elab_as_elim]
theorem induct {motive : Pattern → Prop} (term : ∀ t, motive (.term t))
    (field : ∀ start stop, motive (.field start stop))
    (node : ∀ operator range cardinality parts, (∀ p ∈ parts, motive p) →
      motive (.structure operator range cardinality parts)) (p : Pattern) : motive p :=
  @Pattern.rec motive (fun parts => ∀ p ∈ parts, motive p) term node field (by simp)
    (fun _ _ hfirst hrest => List.forall_mem_cons.mpr ⟨hfirst, hrest⟩) p

variable {s : Snapshot}

/-! ## Malformed patterns -/

theorem malformed_structure {operator : Operator} {range cardinality : Nat}
    {parts : List Pattern} :
    Malformed s (.structure operator range cardinality parts) ↔
      Faulty s (.structure operator range cardinality parts) ∨ ∃ p ∈ parts, Malformed s p := by
  constructor
  · rintro ⟨q, hnode, hfaulty⟩
    cases hnode with
    | root => exact .inl hfaulty
    | part hp hq => exact .inr ⟨_, hp, q, hq, hfaulty⟩
  · rintro (hfaulty | ⟨p, hp, q, hq, hfaulty⟩)
    · exact ⟨_, .root _, hfaulty⟩
    · exact ⟨q, .part hp hq, hfaulty⟩

/-- A node without parts is malformed if it is at fault itself. -/
theorem malformed_leaf {p : Pattern} (hleaf : ∀ q, Node q p → q = p) :
    Malformed s p ↔ Faulty s p := by
  constructor
  · rintro ⟨q, hnode, hfaulty⟩
    rwa [hleaf q hnode] at hfaulty
  · exact fun hfaulty => ⟨p, .root p, hfaulty⟩

theorem columnIndex_error_iff {name : String} :
    (∃ fault, columnIndex s name = .error fault) ↔
      ∀ c ∈ s.metadata.schema.columns, c.name ≠ name := by
  unfold columnIndex Schema.indexOf?
  cases hindex : s.metadata.schema.columns.findIdx? (·.name == name) with
  | none =>
      rw [List.findIdx?_eq_none_iff] at hindex
      simpa using hindex
  | some index =>
      obtain ⟨hlt, hname, -⟩ := List.findIdx?_eq_some_iff_getElem.mp hindex
      constructor
      · rintro ⟨fault, hfault⟩
        cases hfault
      · intro hnone
        exact absurd (by simpa using hname) (hnone _ (List.getElem_mem hlt))

theorem checkParts_error_iff {operator : Operator} {range cardinality : Nat}
    {parts : List Pattern} :
    (∃ fault, checkParts operator cardinality parts.length = .error fault) ↔
      Faulty s (.structure operator range cardinality parts) := by
  have harity : (arguments operator parts).length =
      if operator.isDelimited then parts.length - 1 else parts.length := by
    unfold arguments
    split
    · rw [List.length_tail]
    · rfl
  rw [Faulty, harity]
  unfold checkParts
  dsimp only
  generalize (if operator.isDelimited then parts.length - 1 else parts.length) = arity
  split
  · next hdelimiter => exact ⟨fun _ => .inl hdelimiter, fun _ => ⟨_, rfl⟩⟩
  · next hdelimiter =>
      split
      · next hexcess => exact ⟨fun _ => .inr (.inl hexcess), fun _ => ⟨_, rfl⟩⟩
      · next hexcess =>
          split
          · next htwo =>
              refine ⟨fun _ => .inr (.inr ⟨htwo.1, ?_⟩), fun _ => ⟨_, rfl⟩⟩
              omega
          · next htwo =>
              constructor
              · rintro ⟨fault, hfault⟩
                cases hfault
              · rintro (h | h | ⟨hop, hcount⟩)
                · exact absurd h hdelimiter
                · exact absurd h hexcess
                · exact absurd ⟨hop, by omega, by omega⟩ htwo

/-- Planning parts succeeds when it does for each of them. -/
theorem planAll_eq_ok {parts : List Pattern} {plans : List Plan} :
    planAll s parts = .ok plans ↔ List.Forall₂ (fun p q => p.plan s = .ok q) parts plans := by
  induction parts generalizing plans with
  | nil =>
      rw [planAll, List.forall₂_nil_left_iff, Except.ok.injEq]
      exact eq_comm
  | cons p rest ih =>
      rw [planAll, Fallible.bind_eq_ok]
      simp only [Fallible.bind_eq_ok]
      constructor
      · rintro ⟨first, hfirst, more, hmore, heq⟩
        cases heq
        exact .cons hfirst (ih.mp hmore)
      · intro h
        cases h with
        | cons hfirst hrest => exact ⟨_, hfirst, _, ih.mpr hrest, rfl⟩

theorem planAll_error_iff {parts : List Pattern} :
    (∃ fault, planAll s parts = .error fault) ↔ ∃ p ∈ parts, ∃ fault, p.plan s = .error fault := by
  induction parts with
  | nil => simp [planAll]
  | cons p rest ih =>
      rw [planAll, List.exists_mem_cons_iff, ← ih]
      cases hfirst : p.plan s with
      | error fault => simp [Bind.bind, Except.bind]
      | ok first =>
          cases hrest : planAll s rest with
          | error fault => simp [Bind.bind, Except.bind]
          | ok more => simp [Bind.bind, Except.bind, pure, Except.pure]

/-- A pattern is refused if and only if a node of it is at fault. -/
theorem plan_error_iff {p : Pattern} : (∃ fault, p.plan s = .error fault) ↔ Malformed s p := by
  induction p using Pattern.induct with
  | term t =>
      have hleaf : ∀ q, Node q (.term t) → q = .term t := by
        intro q hnode
        cases hnode
        rfl
      rw [malformed_leaf hleaf, Faulty, plan]
      simp
  | field start stop =>
      have hleaf : ∀ q, Node q (.field start stop) → q = .field start stop := by
        intro q hnode
        cases hnode
        rfl
      rw [malformed_leaf hleaf, Faulty, ← columnIndex_error_iff, ← columnIndex_error_iff, plan]
      cases columnIndex s start with
      | error fault => simp [Bind.bind, Except.bind]
      | ok first =>
          cases columnIndex s stop with
          | error fault => simp [Bind.bind, Except.bind]
          | ok last => simp [Bind.bind, Except.bind, pure, Except.pure]
  | node operator range cardinality parts ih =>
      have hparts : (∃ p ∈ parts, Malformed s p) ↔ ∃ fault, planAll s parts = .error fault := by
        rw [planAll_error_iff]
        constructor
        · rintro ⟨p, hp, hmalformed⟩
          exact ⟨p, hp, (ih p hp).mpr hmalformed⟩
        · rintro ⟨p, hp, hfault⟩
          exact ⟨p, hp, (ih p hp).mp hfault⟩
      rw [malformed_structure, hparts, ← checkParts_error_iff, plan]
      cases checkParts operator cardinality parts.length with
      | error fault => simp [Bind.bind, Except.bind]
      | ok u =>
          cases planAll s parts with
          | error fault => simp [Bind.bind, Except.bind]
          | ok plans => simp [Bind.bind, Except.bind, pure, Except.pure]

end Pattern

/-! ## Operators on plans -/

namespace Plan

open Concordance.Span

/-- A plan that is present only where it has spans. Sets of documents are not tangible. -/
def Tangible (p : Plan) : Prop := ∀ d, p.presentAt d = true → p.spansAt d ≠ []

/-- A plan whose spans are a given set in every document. -/
structure Means (p : Plan) (meaning : Nat → Set Span) : Prop where
  proper : p.Proper
  tangible : p.Tangible
  spans : ∀ d, meaning d = toSet (p.spansAt d)

/-- The sets of spans of plans in a document. -/
abbrev setsAt (parts : List Plan) (d : Nat) : List (Set Span) := parts.map fun q => toSet (q.spansAt d)

variable {parts : List Plan} {d range need cardinality : Nat}

theorem setsAt_eq (parts : List Plan) (d : Nat) :
    setsAt parts d = (parts.map (·.spansAt d)).map toSet := by
  rw [List.map_map]
  rfl

theorem ascend_of_mem_map (hproper : ∀ q ∈ parts, q.Proper) :
    ∀ spans ∈ parts.map (·.spansAt d), StartsAscend spans := by
  intro spans hspans
  obtain ⟨q, hq, rfl⟩ := List.mem_map.mp hspans
  exact (areMatches_spansAt (hproper q hq) d).ascend

/-- A plan that is present where a list of spans is not empty. -/
theorem means_of_nonEmpty {p : Plan} {meaning : Nat → Set Span} (spans : Nat → List Span)
    (hproper : p.Proper) (h : ∀ d, p.matchesAt d = nonEmpty (spans d))
    (hmeaning : ∀ d, meaning d = toSet (spans d)) : p.Means meaning := by
  have hspans : ∀ d, p.spansAt d = spans d := by
    intro d
    rw [spansAt, h d, getD_nonEmpty]
  refine ⟨hproper, fun d hpresent hnil => ?_, fun d => by rw [hmeaning d, hspans d]⟩
  rw [presentAt, h d] at hpresent
  obtain ⟨x, hx⟩ := exists_mem_of_nonEmpty hpresent
  rw [← hspans d, hnil] at hx
  cases hx

theorem means_nothing {meaning : Nat → Set Span} (h : ∀ d, meaning d = ∅) :
    Plan.nothing.Means meaning where
  proper := trivial
  tangible d hpresent := by cases hpresent
  spans d := by rw [h d, spansAt, matchesAt, Option.getD_none, toSet_nil]

/-! ### Unions and counts of parts -/

/-- The matches of those parts that hold a document. -/
theorem present_eq (parts : List Plan) (d : Nat) :
    (parts.map (matchesAt d)).filterMap id =
      (parts.filter (·.presentAt d)).map (·.spansAt d) := by
  induction parts with
  | nil => rfl
  | cons q rest ih =>
      rw [List.map_cons, List.filterMap_cons]
      cases hq : q.matchesAt d with
      | none =>
          rw [List.filter_cons_of_neg (by simp [presentAt, hq])]
          exact ih
      | some spans =>
          rw [List.filter_cons_of_pos (by simp [presentAt, hq]), List.map_cons,
            spansAt_of_matchesAt hq, ← ih]
          rfl

theorem anyOf_setsAt (parts : List Plan) (d : Nat) :
    anyOf (setsAt parts d) = toSet ((parts.map (matchesAt d)).filterMap id).flatten := by
  ext s
  rw [setsAt_eq, anyOf_toSet, present_eq, mem_toSet, mem_toSet, List.mem_flatten, List.mem_flatten]
  constructor
  · rintro ⟨spans, hspans, hs⟩
    obtain ⟨q, hq, rfl⟩ := List.mem_map.mp hspans
    have hpresent := presentAt_of_mem_spansAt hs
    exact ⟨_, List.mem_map.mpr ⟨q, List.mem_filter.mpr ⟨hq, hpresent⟩, rfl⟩, hs⟩
  · rintro ⟨spans, hspans, hs⟩
    obtain ⟨q, hq, rfl⟩ := List.mem_map.mp hspans
    exact ⟨_, List.mem_map.mpr ⟨q, (List.mem_filter.mp hq).1, rfl⟩, hs⟩

/-- So many parts hold a document when so many sets are not empty. -/
theorem exists_sublist_iff (htangible : ∀ q ∈ parts, q.Tangible) :
    (∃ found : List (Set Span), found.Sublist (setsAt parts d) ∧ need ≤ found.length ∧
        ∀ spans ∈ found, spans.Nonempty) ↔ need ≤ (parts.filter (·.presentAt d)).length := by
  constructor
  · rintro ⟨found, hsub, hlength, hnonempty⟩
    obtain ⟨chosen, hchosen, rfl⟩ := List.sublist_map_iff.mp hsub
    have hall : chosen.filter (·.presentAt d) = chosen := by
      refine List.filter_eq_self.mpr fun q hq => ?_
      obtain ⟨s, hs⟩ := hnonempty _ (List.mem_map_of_mem hq)
      exact presentAt_of_mem_spansAt hs
    rw [List.length_map, ← hall] at hlength
    exact Nat.le_trans hlength (hchosen.filter _).length_le
  · intro hlength
    refine ⟨setsAt (parts.filter (·.presentAt d)) d, List.filter_sublist.map _, ?_, ?_⟩
    · rwa [List.length_map]
    · intro spans hspans
      obtain ⟨q, hq, rfl⟩ := List.mem_map.mp hspans
      obtain ⟨hq, hpresent⟩ := List.mem_filter.mp hq
      exact nonempty_toSet.mpr (htangible q hq d hpresent)

theorem mem_gather (htangible : ∀ q ∈ parts, q.Tangible) {s : Span} :
    s ∈ (gather need (parts.map (matchesAt d))).getD [] ↔
      s ∈ shortest (anyOf (setsAt parts d)) ∧ ∃ found : List (Set Span),
        found.Sublist (setsAt parts d) ∧ need ≤ found.length ∧ ∀ spans ∈ found, spans.Nonempty := by
  rw [exists_sublist_iff htangible, anyOf_setsAt, shortest_toSet, mem_toSet]
  have hlength : ((parts.map (matchesAt d)).filterMap id).length =
      (parts.filter (·.presentAt d)).length := by
    rw [present_eq, List.length_map]
  unfold gather
  dsimp only
  rw [hlength]
  split
  · next henough => simp [henough]
  · next hshort => simp [hshort]

theorem tangible_of_gather {p : Plan} (htangible : ∀ q ∈ parts, q.Tangible) (hneed : 1 ≤ need)
    (h : ∀ d, p.matchesAt d = gather need (parts.map (matchesAt d))) : p.Tangible := by
  intro d hpresent
  rw [presentAt, h d] at hpresent
  obtain ⟨q, hq, hfound⟩ := exists_part_of_gather hneed hpresent
  obtain ⟨spans, hspans⟩ := Option.isSome_iff_exists.mp hpresent
  obtain ⟨s, hs⟩ := List.exists_mem_of_ne_nil _ (htangible q hq d hfound)
  rw [spansAt, h d, hspans, Option.getD_some, ← (gather_eq_some.mp hspans).2, ne_eq,
    normalize_eq_nil_iff, present_eq]
  refine List.ne_nil_of_mem (List.mem_flatten.mpr ⟨q.spansAt d, List.mem_map.mpr ⟨q, ?_, rfl⟩, hs⟩)
  exact List.mem_filter.mpr ⟨hq, hfound⟩

theorem means_presence (hproper : ∀ q ∈ parts, q.Proper) (htangible : ∀ q ∈ parts, q.Tangible) :
    (ofPresence cardinality parts).Means
      fun d => Operator.presence.meaning range cardinality (setsAt parts d) where
  proper := proper_ofPresence hproper
  tangible := by
    refine tangible_of_gather htangible (Nat.le_max_right cardinality 1) fun d => ?_
    rw [ofPresence, matchesAt, matchesOfAll_eq]
  spans d := by
    ext s
    rw [ofPresence, spansAt, matchesAt, matchesOfAll_eq, mem_toSet, mem_gather htangible]
    rfl

theorem means_union (hproper : ∀ q ∈ parts, q.Proper) (htangible : ∀ q ∈ parts, q.Tangible) :
    (union parts).Means fun d => Operator.union.meaning range cardinality (setsAt parts d) where
  proper := by
    rw [Proper, properAll_iff]
    exact hproper
  tangible := by
    refine tangible_of_gather htangible (Nat.le_refl 1) fun d => ?_
    rw [matchesAt, matchesOfAll_eq]
  spans d := by
    ext s
    rw [spansAt, matchesAt, matchesOfAll_eq, mem_toSet, mem_gather htangible]
    refine (and_iff_left_of_imp ?_).symm
    -- a span is a span of some part, and one part is enough
    rintro ⟨⟨spans, hspans, hs⟩, -⟩
    exact ⟨[spans], List.singleton_sublist.mpr hspans, Nat.le_refl 1, by simpa using ⟨s, hs⟩⟩

/-! ### The other operators -/

theorem means_intersection {first : Plan} {rest : List Plan}
    (hproper : ∀ q ∈ first :: rest, q.Proper) :
    (intersection (first :: rest)).Means
      fun d => Operator.intersection.meaning range cardinality (setsAt (first :: rest) d) := by
  refine means_of_nonEmpty (fun d => sharedSpans ((first :: rest).map (·.spansAt d))) ?_
    (fun d => by rw [matchesAt, matchesOfAll_eq, getD_matchesAt]) fun d => ?_
  · rw [Proper, properAll_iff]
    exact hproper
  · have hascend : StartsAscend (first.spansAt d) :=
      (areMatches_spansAt (hproper first List.mem_cons_self) d).ascend
    ext s
    rw [List.map_cons, sharedSpans, mem_toSet, mem_normalize_of_ascend (hascend.filter _),
      List.mem_filter]
    simp [Operator.meaning, setsAt, isStart_toSet]

theorem means_difference {kept dropped : Plan} (hkept : kept.Proper) (hdropped : dropped.Proper) :
    (difference kept dropped).Means
      fun d => Operator.difference.meaning range cardinality (setsAt [kept, dropped] d) := by
  refine means_of_nonEmpty
    (fun d => (kept.spansAt d).filter fun s => (dropped.spansAt d).all (·.start ≠ s.start))
    ⟨hkept, hdropped⟩ (fun d => by rw [matchesAt]; rfl) fun d => ?_
  ext s
  simp [Operator.meaning, setsAt, isStart_toSet]

theorem means_inside {inner outer : Plan} (hinner : inner.Proper) (houter : outer.Proper) :
    (inside inner outer).Means
      fun d => Operator.inside.meaning range cardinality (setsAt [inner, outer] d) := by
  refine means_of_nonEmpty
    (fun d => (inner.spansAt d).filter fun s => (outer.spansAt d).any (·.encloses s))
    ⟨hinner, houter⟩ (fun d => by rw [matchesAt]; rfl) fun d => ?_
  ext s
  simp [Operator.meaning, setsAt, encloses]

/-- A sequence without or with a delimiter. -/
theorem means_sequence {mode : Succession} {delimiter : Option Plan}
    (hproper : ∀ q ∈ parts, q.Proper) (hdelimiter : ∀ q ∈ delimiter, q.Proper) :
    (sequence mode parts delimiter).Means
      fun d => mode.matchesOf (toSet (cutsAt d delimiter)) (setsAt parts d) := by
  refine means_of_nonEmpty
    (fun d => Span.normalize (mode.spans (parts.map (·.spansAt d)) (cutsAt d delimiter))) ?_
    (fun d => by rw [matchesAt, matchesOfAll_eq, getD_matchesAt]) fun d => ?_
  · rw [Proper, properAll_iff, properOf_iff]
    exact ⟨hproper, hdelimiter⟩
  · rw [setsAt_eq, Succession.matchesOf_eq (ascend_of_mem_map hproper)]

/-- A window without or with a delimiter. -/
theorem means_window {delimiter : Option Plan} (hproper : ∀ q ∈ parts, q.Proper)
    (hdelimiter : ∀ q ∈ delimiter, q.Proper) :
    (window range need parts delimiter).Means
      fun d => Window.matchesOf range need (toSet (cutsAt d delimiter)) (setsAt parts d) := by
  refine means_of_nonEmpty
    (fun d => Window.spans (parts.map (·.spansAt d)) range need (cutsAt d delimiter)) ?_
    (fun d => by rw [matchesAt, matchesOfAll_eq, getD_matchesAt]) fun d => ?_
  · rw [Proper, properAll_iff, properOf_iff]
    exact ⟨hproper, hdelimiter⟩
  · rw [setsAt_eq, Window.matchesOf_eq (ascend_of_mem_map hproper)]

end Plan

namespace Pattern

open Concordance.Span Plan

variable {s : Snapshot} {operator : Operator} {range cardinality : Nat} {plans : List Plan}

/-- A difference, and a pattern inside another one, has two parts. -/
theorem length_of_checkParts (hop : operator = .difference ∨ operator = .inside)
    (hcheck : checkParts operator cardinality plans.length = .ok ()) (hne : plans ≠ []) :
    plans.length = 2 := by
  have hpositive : plans.length ≠ 0 := fun h => hne (List.eq_nil_of_length_eq_zero h)
  unfold checkParts at hcheck
  dsimp only at hcheck
  generalize (if operator.isDelimited then plans.length - 1 else plans.length) = arity at hcheck
  split at hcheck
  · cases hcheck
  · split at hcheck
    · cases hcheck
    · split at hcheck
      · cases hcheck
      · next htwo =>
          by_contra hcount
          exact htwo ⟨hop, hpositive, hcount⟩

/-- The plan of a structure means what the operator makes of the meanings of its parts. -/
theorem means_join (hcheck : checkParts operator cardinality plans.length = .ok ())
    (hproper : ∀ q ∈ plans, q.Proper) (htangible : ∀ q ∈ plans, q.Tangible) :
    (join operator range cardinality plans).Means
      fun d => operator.meaning range cardinality (setsAt plans d) := by
  have hnone : ∀ q ∈ (none : Option Plan), q.Proper := nofun
  have huncut : ∀ d, toSet (cutsAt d none) = ∅ := fun d => toSet_nil
  cases plans with
  | nil =>
      rw [join]
      refine means_nothing fun d => ?_
      cases operator <;> simp [Operator.meaning, setsAt, shortest, anyOf, Succession.matchesOf,
        Window.matchesOf, IsStart]
  | cons first rest =>
      obtain ⟨hfirst, hrest⟩ := List.forall_mem_cons.mp hproper
      have hdelimiter : ∀ q ∈ some first, q.Proper := by simpa using hfirst
      have hlength : ∀ (parts : List Plan) d, (setsAt parts d).length = parts.length :=
        fun parts d => List.length_map _
      have htwo : operator = .difference ∨ operator = .inside → ∃ second, rest = [second] := by
        intro hop
        have hcount := length_of_checkParts hop hcheck (List.cons_ne_nil _ _)
        rw [List.length_cons] at hcount
        exact List.length_eq_one_iff.mp (Nat.succ.inj hcount)
      cases operator with
      | sequence =>
          have hmeans : (sequence (.ordered range) (first :: rest) none).Means _ :=
            means_sequence hproper hnone
          simp only [huncut] at hmeans
          exact hmeans
      | adjacentSequence =>
          have hmeans : (sequence .adjacent (first :: rest) none).Means _ :=
            means_sequence hproper hnone
          simp only [huncut] at hmeans
          exact hmeans
      | delimitedSequence => exact means_sequence hrest hdelimiter
      | window =>
          have hmeans : (ofWindow range cardinality (first :: rest) none).Means _ :=
            means_window hproper hnone
          refine ⟨hmeans.proper, hmeans.tangible, fun d => ?_⟩
          rw [Operator.meaning, hlength, ← huncut d]
          exact hmeans.spans d
      | delimitedWindow =>
          have hmeans : (ofWindow range cardinality rest (some first)).Means _ :=
            means_window hrest hdelimiter
          refine ⟨hmeans.proper, hmeans.tangible, fun d => ?_⟩
          rw [setsAt, List.map_cons, Operator.meaning, hlength]
          exact hmeans.spans d
      | union => exact means_union hproper htangible
      | intersection => exact means_intersection hproper
      | presence => exact means_presence hproper htangible
      | difference =>
          obtain ⟨second, rfl⟩ := htwo (.inl rfl)
          exact means_difference hfirst (hrest second List.mem_cons_self)
      | inside =>
          obtain ⟨second, rfl⟩ := htwo (.inr rfl)
          exact means_inside hfirst (hrest second List.mem_cons_self)

/-- A document of a structure is a document of some part. -/
theorem exists_part_of_join {d : Nat}
    (h : (join operator range cardinality plans).presentAt d = true) :
    ∃ q ∈ plans, q.presentAt d = true := by
  have hall : ∀ {parts : List Plan}, (parts ≠ [] ∧ ∀ q ∈ parts, q.presentAt d = true) →
      ∃ q ∈ parts, q.presentAt d = true := by
    rintro parts ⟨hne, hpresent⟩
    obtain ⟨q, hq⟩ := List.exists_mem_of_ne_nil parts hne
    exact ⟨q, hq, hpresent q hq⟩
  have hbehind : ∀ {first : Plan} {rest : List Plan}, (∃ q ∈ rest, q.presentAt d = true) →
      ∃ q ∈ first :: rest, q.presentAt d = true := by
    rintro first rest ⟨q, hq, hpresent⟩
    exact ⟨q, List.mem_cons_of_mem _ hq, hpresent⟩
  cases plans with
  | nil =>
      rw [join] at h
      cases h
  | cons first rest =>
      cases operator with
      | sequence => exact hall (all_parts_of_sequence h)
      | adjacentSequence => exact hall (all_parts_of_sequence h)
      | delimitedSequence => exact hbehind (hall (all_parts_of_sequence h))
      | window => exact exists_part_of_window h
      | delimitedWindow => exact hbehind (exists_part_of_window h)
      | union =>
          rw [join, presentAt, matchesAt, matchesOfAll_eq] at h
          · exact exists_part_of_gather (Nat.le_refl 1) h
          · simp
      | intersection => exact hall (all_parts_of_intersection h)
      | presence =>
          rw [join, ofPresence, presentAt, matchesAt, matchesOfAll_eq] at h
          · exact exists_part_of_gather (Nat.le_max_right cardinality 1) h
          · simp
      | difference => exact ⟨first, List.mem_cons_self, kept_of_difference h⟩
      | inside => exact ⟨first, List.mem_cons_self, (both_of_inside h).1⟩

/-! ## Plans of patterns -/

/-- The plan of a pattern stands for the pattern: it has its spans, and only in documents that are
stored. -/
structure Renders (s : Snapshot) (p : Pattern) (q : Plan) : Prop
    extends q.Means fun d => s.meaning d p where
  stored : ∀ d, q.presentAt d = true → ∃ stored, s.documents.get? d = some stored

theorem positionsIn_eq (h : s.Sound) (d : Nat) (t : Term) :
    s.positionsIn d t = ((s.postings.get? t).bind (·.get? d)).getD [] := by
  rw [Snapshot.positionsIn, h.consistent.posting]

/-- A term of which there is no posting list stands nowhere. -/
theorem renders_term (h : s.Sound) (hpositioned : s.Positioned) (t : Term) :
    Renders s (.term t) (((s.postings.get? t).map Plan.term).getD .nothing) := by
  cases hget : s.postings.get? t with
  | none =>
      rw [Option.map_none, Option.getD_none]
      refine ⟨means_nothing fun d => ?_, fun d hpresent => by cases hpresent⟩
      rw [Snapshot.meaning, positionsIn_eq h, hget]
      simp
  | some postings =>
      rw [Option.map_some, Option.getD_some]
      -- the positions of a document are those that it has stored
      have hpositions : ∀ d positions, postings.get? d = some positions →
          (∃ stored, s.documents.get? d = some stored) ∧ positions ≠ [] ∧
            ArePositions positions := by
        intro d positions hd
        have hposting := h.consistent.posting t d
        rw [hget, Option.bind_some, hd, eq_comm, Option.bind_eq_some_iff] at hposting
        obtain ⟨stored, hstored, hsearch⟩ := hposting
        obtain ⟨hne, hrange⟩ := hpositioned d stored hstored t positions hsearch
        refine ⟨⟨stored, hstored⟩, hne, h.consistent.ascending t postings d positions hget hd, ?_⟩
        intro p hp
        have hmax : maxPosition ≤ Wire.maxWord32 := by decide
        exact ⟨(hrange p hp).1, Nat.le_trans (hrange p hp).2 hmax⟩
      have hproper : (Plan.term postings).Proper := by
        rintro ⟨d, positions⟩ hmem
        exact (hpositions d positions (SortedMap.mem_toList.mp hmem)).2.2
      have hspans : ∀ d, (Plan.term postings).spansAt d =
          ((postings.get? d).getD []).map fun p => ⟨p, 1⟩ := by
        intro d
        rw [spansAt, matchesAt]
        cases hd : postings.get? d with
        | none => rfl
        | some positions =>
            rw [Option.map_some, Option.getD_some, termSpans_eq (hpositions d positions hd).2.2]
            rfl
      have hpresent : ∀ d, (Plan.term postings).presentAt d = true →
          ∃ positions, postings.get? d = some positions := by
        intro d hd
        rw [presentAt, matchesAt, Option.isSome_map] at hd
        exact Option.isSome_iff_exists.mp hd
      refine ⟨⟨hproper, fun d hd => ?_, fun d => ?_⟩, fun d hd => ?_⟩
      · obtain ⟨positions, hget'⟩ := hpresent d hd
        rw [hspans, hget']
        simpa using (hpositions d positions hget').2.1
      · ext x
        rw [Snapshot.meaning, positionsIn_eq h, hget, Option.bind_some, mem_toSet, hspans]
        cases x
        simp
        tauto
      · obtain ⟨positions, hget'⟩ := hpresent d hd
        exact (hpositions d positions hget').1

/-- The border that a column stores is the position that is read from it, or 0. -/
theorem border_eq {column : String} {index : Nat} (hindex : columnIndex s column = .ok index)
    (d : Nat) : s.border d column = (columnPosition? s.metadata d index).getD 0 := by
  have hname : s.metadata.schema.indexOf? column = some index := by
    unfold columnIndex at hindex
    split at hindex
    · cases hindex
      assumption
    · cases hindex
  unfold Snapshot.border columnPosition? Table.get?
  rw [hname, Option.map_some, Option.bind_some]
  cases (s.metadata.get d index).toInt? with
  | none => rfl
  | some n =>
      dsimp only
      split
      · rfl
      · next hn =>
          rw [Int.toNat_of_nonpos (Int.not_lt.mp hn)]
          simp

/-- The field of a document is the span between its borders. -/
theorem fieldBetween_eq {start stop : String} {first last : Nat}
    (hfirst : columnIndex s start = .ok first) (hlast : columnIndex s stop = .ok last) (d : Nat) :
    Snapshot.fieldBetween (s.border d start) (s.border d stop) =
      toSet (fieldSpan? s.metadata d first last).toList := by
  rw [border_eq hfirst, border_eq hlast]
  unfold fieldSpan? Snapshot.fieldBetween
  ext x
  cases x with
  | mk begins covers =>
      cases hbegin : columnPosition? s.metadata d first with
      | none => simp
      | some a =>
          have ha := (columnPosition?_range hbegin).1
          cases hend : columnPosition? s.metadata d last with
          | none =>
              simp
              omega
          | some b =>
              have hb := (columnPosition?_range hend).1
              dsimp only [Option.getD_some]
              split
              · next hlt =>
                  simp
                  omega
              · next hle =>
                  simp
                  omega

/-- Documents that are not stored have no field: their metadata reads zero. -/
theorem fieldSpan?_eq_none (h : s.Sound) {d : Nat} (hnone : s.documents.get? d = none)
    (first last : Nat) : fieldSpan? s.metadata d first last = none := by
  have hid : s.id? d = none := by
    rw [h.consistent.stored, hnone]
    rfl
  have hzero := ColumnType.toInt?_of_isZero (h.consistent.zero d hid first)
  have hposition : columnPosition? s.metadata d first = none := by
    unfold columnPosition?
    rw [hzero]
    rfl
  unfold fieldSpan?
  rw [hposition]

theorem renders_field (h : s.Sound) {start stop : String} {first last : Nat}
    (hfirst : columnIndex s start = .ok first) (hlast : columnIndex s stop = .ok last) :
    Renders s (.field start stop) (.field first last s.metadata s.maxNumber s.size) := by
  have hstored : ∀ d x, fieldSpan? s.metadata d first last = some x →
      ∃ stored, s.documents.get? d = some stored := by
    intro d x hx
    cases hget : s.documents.get? d with
    | none =>
        rw [fieldSpan?_eq_none h hget] at hx
        cases hx
    | some stored => exact ⟨stored, rfl⟩
  -- the numbers of stored documents are in reach
  have hmatches : ∀ d, (Plan.field first last s.metadata s.maxNumber s.size).matchesAt d =
      nonEmpty (fieldSpan? s.metadata d first last).toList := by
    intro d
    rw [matchesAt]
    cases hfield : fieldSpan? s.metadata d first last with
    | none => simp [nonEmpty]
    | some x =>
        obtain ⟨stored, hget⟩ := hstored d x hfield
        have hlive : s.numbering.IsLive d := by
          refine ⟨stored.id, ?_⟩
          have hid := h.consistent.stored d
          rwa [hget] at hid
        have hrange := (h.numbering.live_range d hlive).2
        rw [if_pos]
        · rfl
        · rw [Snapshot.maxNumber, Numbering.maxNumber]
          omega
  refine ⟨means_of_nonEmpty _ trivial hmatches fun d => ?_, fun d hpresent => ?_⟩
  · rw [Snapshot.meaning]
    exact fieldBetween_eq hfirst hlast d
  · rw [presentAt, hmatches] at hpresent
    obtain ⟨x, hx⟩ := exists_mem_of_nonEmpty hpresent
    exact hstored d x (by simpa using hx)

/-- What is related to a list member by member has for every member one of the list. -/
theorem exists_of_mem_right {α β : Type} {R : α → β → Prop} {l : List α} {r : List β}
    (h : List.Forall₂ R l r) {b : β} (hb : b ∈ r) : ∃ a ∈ l, R a b := by
  induction h with
  | nil => cases hb
  | @cons a b' l r hab _ ih =>
      rcases List.mem_cons.mp hb with rfl | hb
      · exact ⟨a, List.mem_cons_self, hab⟩
      · obtain ⟨a', ha', hrel⟩ := ih hb
        exact ⟨a', List.mem_cons_of_mem a ha', hrel⟩

/-- Plans that stand for the parts of a pattern, one by one. -/
theorem renders_parts {parts : List Pattern} (h : List.Forall₂ (Renders s) parts plans) :
    (∀ d, s.meaningAll d parts = setsAt plans d) ∧ ∀ q ∈ plans, ∃ p ∈ parts, Renders s p q := by
  refine ⟨fun d => ?_, fun q => exists_of_mem_right h⟩
  induction h with
  | nil => rw [Snapshot.meaningAll, setsAt, List.map_nil]
  | cons hfirst _ ih =>
      rw [Snapshot.meaningAll, ih, hfirst.spans d, setsAt, setsAt, List.map_cons]

/-- In a sound snapshot of documents with positions, the plan of a pattern stands for it. -/
theorem renders_plan (h : s.Sound) (hpositioned : s.Positioned) {p : Pattern} {q : Plan}
    (hplan : p.plan s = .ok q) : Renders s p q := by
  induction p using Pattern.induct generalizing q with
  | term t =>
      cases hplan
      exact renders_term h hpositioned t
  | field start stop =>
      obtain ⟨first, hfirst, hplan⟩ := Fallible.bind_eq_ok.mp hplan
      obtain ⟨last, hlast, hplan⟩ := Fallible.bind_eq_ok.mp hplan
      cases hplan
      exact renders_field h hfirst hlast
  | node operator range cardinality parts ih =>
      obtain ⟨⟨⟩, hcheck, hplan⟩ := Fallible.bind_eq_ok.mp hplan
      obtain ⟨plans, hplans, hplan⟩ := Fallible.bind_eq_ok.mp hplan
      cases hplan
      have hparts : List.Forall₂ (fun p q => p.plan s = .ok q) parts plans :=
        planAll_eq_ok.mp hplans
      have hrenders : List.Forall₂ (Renders s) parts plans :=
        ((List.forall₂_and_left _ _).mpr ⟨fun p hp q => ih p hp (q := q), hparts⟩).imp
          fun p q hpq => hpq.1 q hpq.2
      obtain ⟨hsets, hall⟩ := renders_parts hrenders
      have hjoin : (join operator range cardinality plans).Means
          fun d => operator.meaning range cardinality (setsAt plans d) := by
        refine means_join (by rwa [← hparts.length_eq]) (fun q hq => ?_) fun q hq => ?_
        · obtain ⟨p, -, hp⟩ := hall q hq
          exact hp.proper
        · obtain ⟨p, -, hp⟩ := hall q hq
          exact hp.tangible
      refine ⟨⟨hjoin.proper, hjoin.tangible, fun d => ?_⟩, fun d hpresent => ?_⟩
      · rw [Snapshot.meaning, hsets d]
        exact hjoin.spans d
      · obtain ⟨q, hq, hfound⟩ := exists_part_of_join hpresent
        obtain ⟨p, -, hp⟩ := hall q hq
        exact hp.stored d hfound

end Pattern

end Concordance
