import Concordance.Proofs.Query.Filters
import Concordance.Proofs.Query.Listing
import Concordance.Query.Session

/-!
# What a query selects and lets pass

A query selects the documents with a match of one of its selected features, and lets those pass that
its users may see, that are among the documents it ranks, and whose metadata and features are as
asked for. Both are said in terms of what patterns mean in the stored documents (`Query.Selects`,
`Query.Passes`), and the plans that an evaluation works with find out about them: a selection is the
union of the planned features (`Query.selects_iff`), and the filters of a query ask for what the
query asks for (`Query.filters_spec`).
-/

namespace Concordance

namespace Query

/-! ## What a query asks for -/

/-- A feature of a query in one of several sets. -/
def InSets (q : Query) (sets : List String) (f : Feature) : Prop := f ∈ q.allFeatures ∧ f.set ∈ sets

/-- A stored document with a match of a pattern. -/
def HasMatch (q : Query) (p : Pattern) (d : Nat) : Prop :=
  (∃ stored, q.snapshot.documents.get? d = some stored) ∧ (q.snapshot.meaning d p).Nonempty

/-- A document with a selected feature. -/
def Selects (q : Query) (d : Nat) : Prop :=
  ∃ f, q.InSets q.scheme.selection f ∧ q.HasMatch f.pattern d

/-- A document whose metadata fulfil a condition. -/
def Fulfils (q : Query) (d : Nat) (c : Condition) : Prop :=
  ∃ value, q.snapshot.metadata.get? d c.column = some value ∧ c.comparison.holds value c.value = true

/-- A document that passes the filters of a query. -/
structure Passes (q : Query) (d : Nat) : Prop where
  /-- Some user may see it, if access is controlled and users were given. -/
  access : q.snapshot.accessControl = false ∨ q.users = [] ∨ ∃ user ∈ q.users, ∃ stored,
    q.snapshot.documents.get? d = some stored ∧ user ∈ stored.access
  /-- It is one of the documents to rank, if there is such a choice. -/
  chosen : ∀ numbers ∈ q.documentSet, d ∈ numbers
  /-- In every group some condition is fulfilled. -/
  conditions : ∀ group ∈ q.restriction.groups, ∃ c ∈ group, q.Fulfils d c
  restrictions : ∀ f, q.InSets q.scheme.restriction f → q.HasMatch f.pattern d
  exclusions : ∀ f, q.InSets q.scheme.exclusion f → ¬ q.HasMatch f.pattern d

/-! ## Plans and criteria -/

variable {q : Query} {sets : List String} {planned : List PlannedFeature} {f : Filters} {d : Nat}

/-- A plan that is present where a feature has a match. -/
def StandsFor (q : Query) (p : Plan) (f : Feature) : Prop :=
  ∀ d, p.presentAt d = true ↔ q.HasMatch f.pattern d

/-- The planned features of sets are the features of the sets. -/
theorem planned_of_sets (hs : q.snapshot.Published)
    (h : featuresOfSets q.context sets = .ok planned) :
    (∀ p ∈ planned, p.plan.Proper ∧ ∃ f, q.InSets sets f ∧ q.StandsFor p.plan f) ∧
      ∀ f, q.InSets sets f → ∃ p ∈ planned, q.StandsFor p.plan f := by
  obtain ⟨hsound, hpositioned⟩ := hs.sound_and_positioned
  have hplan : ∀ {f : Feature} {p : PlannedFeature}, q.context.planFeature f = .ok p →
      p.plan.Proper ∧ q.StandsFor p.plan f := by
    intro f p hp
    obtain ⟨plan, hplan, heq⟩ := Fallible.bind_eq_ok.mp hp
    cases heq
    have hrenders := Pattern.renders_plan hsound hpositioned (Fallible.mapError_eq_ok.mp hplan)
    exact ⟨hrenders.proper, fun d => Snapshot.presentAt_iff_nonempty hrenders⟩
  obtain ⟨lists, hlists, heq⟩ := Fallible.bind_eq_ok.mp h
  cases heq
  constructor
  · intro p hp
    obtain ⟨list, hlist, hp⟩ := List.mem_flatten.mp hp
    obtain ⟨set, hset, hfeatures⟩ := Fallible.exists_of_mem_mapM hlists hlist
    obtain ⟨f, hf, hplanned⟩ := Fallible.exists_of_mem_mapM hfeatures hp
    obtain ⟨hmem, heq⟩ := List.mem_filter.mp hf
    rw [beq_iff_eq] at heq
    exact ⟨(hplan hplanned).1, f, ⟨hmem, heq ▸ hset⟩, (hplan hplanned).2⟩
  · rintro f ⟨hmem, hset⟩
    obtain ⟨list, hlist, hfeatures⟩ := Fallible.exists_mem_of_mapM hlists hset
    have hf : f ∈ q.context.features.filter (·.set == f.set) :=
      List.mem_filter.mpr ⟨hmem, beq_self_eq_true _⟩
    obtain ⟨p, hp, hplanned⟩ := Fallible.exists_mem_of_mapM hfeatures hf
    exact ⟨p, List.mem_flatten.mpr ⟨list, hlist, hp⟩, (hplan hplanned).2⟩

/-- The planned features of sets are all present where all features of the sets have matches. -/
theorem forall_present_iff (hs : q.snapshot.Published)
    (h : featuresOfSets q.context sets = .ok planned) :
    (∀ p ∈ planned.map (·.plan), p.presentAt d = true) ↔
      ∀ f, q.InSets sets f → q.HasMatch f.pattern d := by
  obtain ⟨hplanned, hfeatures⟩ := planned_of_sets hs h
  rw [List.forall_mem_map]
  constructor
  · intro hall f hf
    obtain ⟨p, hp, hstands⟩ := hfeatures f hf
    exact (hstands d).mp (hall p hp)
  · intro hall p hp
    obtain ⟨-, f, hf, hstands⟩ := hplanned p hp
    exact (hstands d).mpr (hall f hf)

/-- Some planned feature of sets is present where some feature of the sets has a match. -/
theorem exists_present_iff (hs : q.snapshot.Published)
    (h : featuresOfSets q.context sets = .ok planned) :
    (∃ p ∈ planned.map (·.plan), p.presentAt d = true) ↔
      ∃ f, q.InSets sets f ∧ q.HasMatch f.pattern d := by
  obtain ⟨hplanned, hfeatures⟩ := planned_of_sets hs h
  constructor
  · rintro ⟨plan, hplan, hpresent⟩
    obtain ⟨p, hp, rfl⟩ := List.mem_map.mp hplan
    obtain ⟨-, f, hf, hstands⟩ := hplanned p hp
    exact ⟨f, hf, (hstands d).mp hpresent⟩
  · rintro ⟨f, hf, hmatch⟩
    obtain ⟨p, hp, hstands⟩ := hfeatures f hf
    exact ⟨p.plan, List.mem_map_of_mem hp, (hstands d).mpr hmatch⟩

theorem presentAt_union {parts : List Plan} :
    (Plan.union parts).presentAt d = true ↔ ∃ p ∈ parts, p.presentAt d = true := by
  rw [Plan.presentAt, Plan.matchesAt, Plan.matchesOfAll_eq]
  refine ⟨Plan.exists_part_of_gather (Nat.le_refl 1), ?_⟩
  rintro ⟨p, hp, hpresent⟩
  unfold Plan.gather
  dsimp only
  rw [Plan.present_eq, List.length_map, if_pos]
  · rfl
  · exact List.length_pos_of_mem (List.mem_filter.mpr ⟨hp, hpresent⟩)

theorem presentAt_ofDocuments {numbers : List Nat} (hd : 1 ≤ d) :
    (Plan.ofDocuments numbers).presentAt d = true ↔ d ∈ numbers := by
  have hne : d ≠ 0 := by omega
  rw [Plan.ofDocuments, Plan.presentAt, Plan.matchesAt]
  split
  · next h => simpa [hne] using h
  · next h => simpa [hne] using h

/-- The documents of access lists are those that list a user. -/
theorem presentAt_access {s : Snapshot} (h : s.Sound) {users : List String} :
    (Plan.access (s.access.listsFor users)).presentAt d = true ↔
      ∃ user ∈ users, ∃ stored, s.documents.get? d = some stored ∧ user ∈ stored.access := by
  have hlisted : (Plan.access (s.access.listsFor users)).presentAt d = true ↔
      ∃ numbers ∈ s.access.listsFor users, d ∈ numbers := by
    rw [Plan.presentAt, Plan.matchesAt]
    split
    · next h => simpa using h
    · next h => simpa using h
  rw [hlisted]
  constructor
  · rintro ⟨numbers, hnumbers, hd⟩
    obtain ⟨user, huser, hentry⟩ := List.mem_filterMap.mp hnumbers
    obtain ⟨documents, hget, rfl⟩ := Option.map_eq_some_iff.mp hentry
    refine ⟨user, huser, (h.consistent.readable user d).mp ?_⟩
    rwa [SortedMap.getD_of_some hget]
  · rintro ⟨user, huser, hstored⟩
    have hd := (h.consistent.readable user d).mpr hstored
    cases hget : s.access.byUser.get? user with
    | none =>
        rw [SortedMap.getD_of_none hget] at hd
        cases hd
    | some documents =>
        rw [SortedMap.getD_of_some hget] at hd
        refine ⟨documents.keys, List.mem_filterMap.mpr ⟨user, huser, ?_⟩, hd⟩
        rw [hget]
        rfl

theorem proper_access (s : Snapshot) (users : List String) :
    (Plan.access (s.access.listsFor users)).Proper := by
  intro numbers hnumbers
  obtain ⟨user, -, hentry⟩ := List.mem_filterMap.mp hnumbers
  obtain ⟨documents, -, rfl⟩ := Option.map_eq_some_iff.mp hentry
  exact documents.keys_lt

/-- A test holds where the condition is fulfilled that it was looked up for. -/
theorem holds_iff {c : Condition} {t : ColumnTest}
    (h : Restriction.resolveCondition q.snapshot.metadata.schema c = .ok t) :
    t.holds q.snapshot.metadata d = true ↔ q.Fulfils d c := by
  unfold Restriction.resolveCondition at h
  unfold Fulfils Table.get?
  split at h
  · next index hindex =>
      cases h
      rw [hindex]
      simp [ColumnTest.holds]
  · cases h

/-- The tests of a restriction hold where its conditions are fulfilled. -/
theorem allHold_iff {groups : List (List ColumnTest)}
    (h : q.restriction.resolve q.snapshot.metadata.schema = .ok groups) :
    ColumnTest.allHold groups q.snapshot.metadata d = true ↔
      ∀ group ∈ q.restriction.groups, ∃ c ∈ group, q.Fulfils d c := by
  unfold ColumnTest.allHold
  simp only [List.all_eq_true, List.any_eq_true]
  constructor
  · intro hall group hgroup
    obtain ⟨tests, htests, hresolved⟩ := Fallible.exists_mem_of_mapM h hgroup
    obtain ⟨t, ht, hholds⟩ := hall tests htests
    obtain ⟨c, hc, hcondition⟩ := Fallible.exists_of_mem_mapM hresolved ht
    exact ⟨c, hc, (holds_iff hcondition).mp hholds⟩
  · intro hall tests htests
    obtain ⟨group, hgroup, hresolved⟩ := Fallible.exists_of_mem_mapM h htests
    obtain ⟨c, hc, hfulfils⟩ := hall group hgroup
    obtain ⟨t, ht, hcondition⟩ := Fallible.exists_mem_of_mapM hresolved hc
    exact ⟨t, ht, (holds_iff hcondition).mpr hfulfils⟩

/-- The plan of the users, if access counts. -/
def accessPlan (q : Query) : Option Plan :=
  if q.snapshot.accessControl && !q.users.isEmpty then
    some (.access (q.snapshot.access.listsFor q.users))
  else none

theorem accessPlan_iff (h : q.snapshot.Sound) :
    (∀ p ∈ q.accessPlan, p.presentAt d = true) ↔
      (q.snapshot.accessControl = false ∨ q.users = [] ∨ ∃ user ∈ q.users, ∃ stored,
        q.snapshot.documents.get? d = some stored ∧ user ∈ stored.access) := by
  unfold accessPlan
  rw [← presentAt_access h]
  cases hcontrol : q.snapshot.accessControl with
  | false => simp
  | true =>
      cases husers : q.users with
      | nil => simp
      | cons user rest => simp

/-- The filters of a query are lawful, and look for what the query asks for. -/
theorem criteria_of_filters (hs : q.snapshot.Published) (h : q.filters q.context = .ok f) :
    ∃ restrictions exclusions tests,
      featuresOfSets q.context q.scheme.restriction = .ok restrictions ∧
      featuresOfSets q.context q.scheme.exclusion = .ok exclusions ∧
      q.restriction.resolve q.snapshot.metadata.schema = .ok tests ∧ f.Lawful ∧
      f.criteria = ⟨q.accessPlan, q.documentSet.map Plan.ofDocuments, tests,
        restrictions.map (·.plan), exclusions.map (·.plan)⟩ := by
  obtain ⟨restrictions, hrestrictions, h⟩ := Fallible.bind_eq_ok.mp h
  obtain ⟨exclusions, hexclusions, h⟩ := Fallible.bind_eq_ok.mp h
  obtain ⟨tests, htests, h⟩ := Fallible.bind_eq_ok.mp h
  cases h
  have hwalkers : ∀ {sets : List String} {planned : List PlannedFeature},
      featuresOfSets q.context sets = .ok planned →
      ∀ w ∈ planned.map fun p => Walker.start p.plan, w.Lawful := by
    intro sets planned hplanned w hw
    obtain ⟨p, hp, rfl⟩ := List.mem_map.mp hw
    exact Walker.lawful_start ((planned_of_sets hs hplanned).1 p hp).1
  refine ⟨restrictions, exclusions, tests, hrestrictions, hexclusions, htests,
    ⟨?_, ?_, hwalkers hrestrictions, hwalkers hexclusions⟩, ?_⟩
  · intro w hw
    obtain ⟨p, hp, rfl⟩ := Option.map_eq_some_iff.mp hw
    split at hp <;> cases hp
    exact Walker.lawful_start (proper_access _ _)
  · intro w hw
    obtain ⟨numbers, -, rfl⟩ := Option.map_eq_some_iff.mp hw
    exact Walker.lawful_start (Plan.proper_ofDocuments numbers)
  · -- the plan of a walker is the one it was started with
    have haccess : ∀ plan : Option Plan, (plan.map Walker.start).map (·.plan) = plan := by
      intro plan
      cases plan <;> rfl
    have hset : ((q.documentSet.map fun numbers => Walker.start (.ofDocuments numbers)).map
        (·.plan)) = q.documentSet.map Plan.ofDocuments := by
      cases q.documentSet <;> rfl
    have hplans : ∀ planned : List PlannedFeature,
        Walker.plans (planned.map fun p => Walker.start p.plan) = planned.map (·.plan) := by
      intro planned
      rw [Walker.plans, List.map_map]
      rfl
    unfold Filters.criteria accessPlan
    dsimp only
    rw [haccess, hset, hplans, hplans]
    rfl

/-- The filters of a query let the documents pass that it asks for. -/
theorem filters_spec (hs : q.snapshot.Published) (h : q.filters q.context = .ok f) :
    f.Lawful ∧ ∀ d, 1 ≤ d → (f.criteria.Meets q.snapshot.metadata d ↔ q.Passes d) := by
  obtain ⟨restrictions, exclusions, tests, hrestrictions, hexclusions, htests, hlawful, hcriteria⟩ :=
    criteria_of_filters hs h
  refine ⟨hlawful, fun d hd => ?_⟩
  have haccess := accessPlan_iff (q := q) (d := d) hs.sound_and_positioned.1
  have hchosen : (∀ p ∈ q.documentSet.map Plan.ofDocuments, p.presentAt d = true) ↔
      ∀ numbers ∈ q.documentSet, d ∈ numbers := by
    cases q.documentSet <;> simp [presentAt_ofDocuments hd]
  have hconditions := allHold_iff (d := d) htests
  have hpresent := forall_present_iff (d := d) hs hrestrictions
  have habsent := exists_present_iff (d := d) hs hexclusions
  rw [hcriteria]
  constructor
  · rintro ⟨hsees, hset, hhold, hall, hnone⟩
    refine ⟨haccess.mp hsees, hchosen.mp hset, hconditions.mp hhold, hpresent.mp hall,
      fun f hf hmatch => ?_⟩
    obtain ⟨p, hp, hthere⟩ := habsent.mpr ⟨f, hf, hmatch⟩
    exact hnone p hp hthere
  · rintro ⟨hsees, hset, hhold, hall, hnone⟩
    refine ⟨haccess.mpr hsees, hchosen.mpr hset, hconditions.mpr hhold, hpresent.mpr hall,
      fun p hp hthere => ?_⟩
    obtain ⟨f, hf, hmatch⟩ := habsent.mp ⟨p, hp, hthere⟩
    exact hnone f hf hmatch

theorem selects_iff (hs : q.snapshot.Published) {selected : List PlannedFeature}
    (h : featuresOfSets q.context q.scheme.selection = .ok selected) :
    q.Selects d ↔ 1 ≤ d ∧ (Plan.union (selected.map (·.plan))).presentAt d = true := by
  rw [presentAt_union, exists_present_iff hs h]
  refine ⟨fun hselects => ⟨?_, hselects⟩, fun hselects => hselects.2⟩
  obtain ⟨f, -, ⟨stored, hstored⟩, -⟩ := hselects
  exact hs.sound_and_positioned.1.one_le_of_stored hstored

end Query

end Concordance
