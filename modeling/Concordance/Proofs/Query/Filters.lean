import Concordance.Proofs.Query.Cursor
import Concordance.Query.Filters

/-!
# What filters let pass

Filters look for plans and tests, their criteria. Which candidates they were asked of before, and
which cursors a refusal left behind, makes no difference: a candidate passes if and only if it meets
the criteria (`Filters.accept_asks`), and afterwards the filters are as good as before.
-/

namespace Concordance

namespace Walker

/-- A walker of a proper plan, wherever calls have led it. -/
structure Lawful (w : Walker) : Prop where
  proper : w.plan.Proper
  reached : Cursor.Reached w.plan w.cursor

variable {w : Walker} {walkers : List Walker} {d : Nat}

theorem lawful_start {p : Plan} (hp : p.Proper) : (start p).Lawful := ⟨hp, .start⟩

theorem Lawful.seek (h : w.Lawful) (n : Nat) : (w.seek n).Lawful := ⟨h.proper, h.reached.seek n⟩

theorem Lawful.nearest (h : w.Lawful) (n : Nat) :
    IsNearest (fun d => w.plan.presentAt d) (max n 1) (w.seek n).document :=
  h.proper.lawful.nearest h.reached n

/-- A walker stops at the documents of its plan. -/
theorem Lawful.stopsAt (h : w.Lawful) (hd : 1 ≤ d) :
    (w.stopsAt d).1 = w.plan.presentAt d ∧ (w.stopsAt d).2.Lawful ∧
      (w.stopsAt d).2.plan = w.plan := by
  refine ⟨?_, h.seek d, rfl⟩
  have hnearest := h.nearest d
  rw [Nat.max_eq_left hd] at hnearest
  rw [Bool.eq_iff_iff, ← hnearest.eq_self_iff]
  exact decide_eq_true_iff

/-- What walkers walk through. -/
def plans (walkers : List Walker) : List Plan := walkers.map (·.plan)

/-- Some walker answers as wanted when some plan does. -/
theorem anyStops_spec (wanted : Bool) (h : ∀ w ∈ walkers, w.Lawful) (hd : 1 ≤ d) :
    (anyStops wanted d walkers).1 = (plans walkers).any (fun p => p.presentAt d = wanted) ∧
      (∀ w ∈ (anyStops wanted d walkers).2, w.Lawful) ∧
      plans (anyStops wanted d walkers).2 = plans walkers := by
  induction walkers with
  | nil => exact ⟨rfl, h, rfl⟩
  | cons w rest ih =>
      obtain ⟨hw, hrest⟩ := List.forall_mem_cons.mp h
      obtain ⟨hstops, hlawful, hplan⟩ := hw.stopsAt hd
      obtain ⟨hany, hmore, hplans⟩ := ih hrest
      unfold anyStops
      dsimp only
      rw [hstops]
      split
      · next hwanted =>
          refine ⟨?_, List.forall_mem_cons.mpr ⟨hlawful, hrest⟩, ?_⟩
          · simp [plans, hwanted]
          · rw [plans, plans, List.map_cons, List.map_cons, hplan]
      · next hnot =>
          refine ⟨?_, List.forall_mem_cons.mpr ⟨hlawful, hmore⟩, ?_⟩
          · rw [hany]
            simp [plans, hnot]
          · rw [plans, List.map_cons, hplan]
            exact congrArg _ hplans

end Walker

namespace Filters

/-- What filters look for. -/
structure Criteria where
  access : Option Plan
  documentSet : Option Plan
  tests : List (List ColumnTest)
  restrictions : List Plan
  exclusions : List Plan

def criteria (f : Filters) : Criteria where
  access := f.access.map (·.plan)
  documentSet := f.documentSet.map (·.plan)
  tests := f.tests
  restrictions := Walker.plans f.restrictions
  exclusions := Walker.plans f.exclusions

/-- A candidate that meets the criteria. -/
structure Criteria.Meets (c : Criteria) (table : Table) (d : Nat) : Prop where
  access : ∀ p ∈ c.access, p.presentAt d = true
  documentSet : ∀ p ∈ c.documentSet, p.presentAt d = true
  tests : ColumnTest.allHold c.tests table d = true
  restrictions : ∀ p ∈ c.restrictions, p.presentAt d = true
  exclusions : ∀ p ∈ c.exclusions, ¬ p.presentAt d = true

/-- Filters all of whose walkers are lawful. -/
structure Lawful (f : Filters) : Prop where
  access : ∀ w ∈ f.access, w.Lawful
  documentSet : ∀ w ∈ f.documentSet, w.Lawful
  restrictions : ∀ w ∈ f.restrictions, w.Lawful
  exclusions : ∀ w ∈ f.exclusions, w.Lawful

/-- A filter finds out about a test, and leaves the filters as good as they were. -/
def Asks (ask : Ask) (test : Criteria → Nat → Prop) : Prop :=
  ∀ f : Filters, f.Lawful → ∀ d, 1 ≤ d →
    ((ask f d).1 = true ↔ test f.criteria d) ∧ (ask f d).2.Lawful ∧
      (ask f d).2.criteria = f.criteria

/-- A walker that need not be there, as a list. -/
theorem anyStops_toList {w? : Option Walker} {d : Nat} (h : ∀ w ∈ w?, w.Lawful) (hd : 1 ≤ d) :
    ((!(Walker.anyStops false d w?.toList).1) = true ↔
        ∀ p ∈ w?.map (·.plan), p.presentAt d = true) ∧
      (∀ w ∈ (Walker.anyStops false d w?.toList).2.head?, w.Lawful) ∧
      (Walker.anyStops false d w?.toList).2.head?.map (·.plan) = w?.map (·.plan) := by
  obtain ⟨hany, hlawful, hplans⟩ := Walker.anyStops_spec false
    (show ∀ w ∈ w?.toList, w.Lawful by simpa using h) hd
  refine ⟨?_, fun w hw => hlawful w (List.mem_of_mem_head? hw), ?_⟩
  · rw [hany]
    cases w? <;> simp [Walker.plans]
  · rw [← List.head?_map, show List.map _ _ = _ from hplans]
    cases w? <;> rfl

theorem askAccess_asks : Asks askAccess fun c d => ∀ p ∈ c.access, p.presentAt d = true := by
  intro f h d hd
  obtain ⟨hstops, hlawful, hplan⟩ := anyStops_toList h.access hd
  refine ⟨hstops, ⟨hlawful, h.documentSet, h.restrictions, h.exclusions⟩, ?_⟩
  unfold askAccess criteria
  dsimp only
  rw [hplan]

theorem askDocumentSet_asks :
    Asks askDocumentSet fun c d => ∀ p ∈ c.documentSet, p.presentAt d = true := by
  intro f h d hd
  obtain ⟨hstops, hlawful, hplan⟩ := anyStops_toList h.documentSet hd
  refine ⟨hstops, ⟨h.access, hlawful, h.restrictions, h.exclusions⟩, ?_⟩
  unfold askDocumentSet criteria
  dsimp only
  rw [hplan]

theorem askTests_asks (table : Table) :
    Asks (askTests table) fun c d => ColumnTest.allHold c.tests table d = true :=
  fun _ h _ _ => ⟨Iff.rfl, h, rfl⟩

theorem askRestrictions_asks :
    Asks askRestrictions fun c d => ∀ p ∈ c.restrictions, p.presentAt d = true := by
  intro f h d hd
  obtain ⟨hany, hlawful, hplans⟩ := Walker.anyStops_spec false h.restrictions hd
  refine ⟨?_, ⟨h.access, h.documentSet, hlawful, h.exclusions⟩, ?_⟩
  · show (!(Walker.anyStops false d f.restrictions).1) = true ↔ _
    rw [hany]
    simp [criteria]
  · unfold askRestrictions criteria
    dsimp only
    rw [hplans]

theorem askExclusions_asks :
    Asks askExclusions fun c d => ∀ p ∈ c.exclusions, ¬ p.presentAt d = true := by
  intro f h d hd
  obtain ⟨hany, hlawful, hplans⟩ := Walker.anyStops_spec true h.exclusions hd
  refine ⟨?_, ⟨h.access, h.documentSet, h.restrictions, hlawful⟩, ?_⟩
  · show (!(Walker.anyStops true d f.exclusions).1) = true ↔ _
    rw [hany]
    simp [criteria]
  · unfold askExclusions criteria
    dsimp only
    rw [hplans]

/-- Filters that are asked one after the other find out about all tests. -/
theorem askAll_asks {asks : List Ask} {tests : List (Criteria → Nat → Prop)}
    (h : List.Forall₂ Asks asks tests) :
    Asks (askAll asks) fun c d => ∀ test ∈ tests, test c d := by
  induction h with
  | nil => exact fun f hf d _ => ⟨by simp [askAll], hf, rfl⟩
  | @cons ask test asks tests hask _ ih =>
      intro f hf d hd
      obtain ⟨hiff, hlawful, hcriteria⟩ := hask f hf d hd
      obtain ⟨hrest, hlawful', hcriteria'⟩ := ih (ask f d).2 hlawful d hd
      rcases hanswer : ask f d with ⟨answer, left⟩
      rw [hanswer] at hiff hlawful hcriteria hrest hlawful' hcriteria'
      rw [hcriteria] at hrest
      unfold askAll
      rw [hanswer]
      beta_reduce at hrest ⊢
      rw [List.forall_mem_cons, ← hiff]
      cases answer with
      | true => exact ⟨by simpa using hrest, hlawful', hcriteria'.trans hcriteria⟩
      | false => exact ⟨by simp, hlawful, hcriteria⟩

/-- A candidate passes if and only if it meets the criteria. -/
theorem accept_asks (table : Table) : Asks (accept table) fun c d => c.Meets table d := by
  have hall := askAll_asks (.cons askAccess_asks (.cons askDocumentSet_asks (.cons
    (askTests_asks table) (.cons askRestrictions_asks (.cons askExclusions_asks .nil)))))
  intro f hf d hd
  obtain ⟨hiff, hrest⟩ := hall f hf d hd
  refine ⟨hiff.trans ?_, hrest⟩
  constructor
  · intro htests
    simp only [List.forall_mem_cons] at htests
    exact ⟨htests.1, htests.2.1, htests.2.2.1, htests.2.2.2.1, htests.2.2.2.2.1⟩
  · rintro ⟨haccess, hset, htests, hrestrictions, hexclusions⟩
    simp only [List.forall_mem_cons]
    exact ⟨haccess, hset, htests, hrestrictions, hexclusions, by simp⟩

end Filters

end Concordance
