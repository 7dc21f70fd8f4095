import Concordance.Proofs.Query.Criteria
import Concordance.Proofs.Query.Ranking

/-!
# Evaluations

A query visits the documents that it selects, ranks those of them that pass its filters, and answers
a page of the ranking. The pages of a query are slices of one ranking of all documents that pass
(`Query.pages_of_ranking`): neither the cursors of the filters nor the capacity of the ranking shows.
-/

namespace Concordance

namespace Query

/-! ## Rankings of a query -/

/-- The documents that a query visits, and the ranking of those that pass. -/
structure IsRanking (q : Query) (visited : List Nat) (ranking : List Ranked) : Prop where
  ascend : visited.Pairwise (· < ·)
  visited : ∀ d, d ∈ visited ↔ q.Selects d
  once : (ranking.map (·.number)).Nodup
  ranked : ∀ d, d ∈ ranking.map (·.number) ↔ q.Selects d ∧ q.Passes d
  /-- The documents have the weights that the functions and the formula give them. -/
  weights : ∃ w, q.weigher q.context = .ok w ∧
    ∀ r ∈ ranking, w.weigh q.snapshot r.number = .ok r.weight
  /-- Greater weights come first, and of equal weights the smaller number. -/
  order : ranking.Pairwise fun a b => a.beats b = true

/-- The query with another page asked for. -/
def paged (q : Query) (minRank maxRanks : Nat) : Query := { q with minRank, maxRanks }

end Query

/-- The documents of a result with their weights. -/
def QueryResult.page (r : QueryResult) : List Ranked :=
  r.ranks.map fun rank => ⟨rank.number, rank.weight⟩

namespace Query

/-! ## Visiting candidates -/

/-- A document with its weight. -/
def weighed (w : Weigher) (s : Snapshot) (d : Nat) : Except Error Ranked :=
  (w.weigh s d).map fun weight => ⟨d, weight⟩

/-- An evaluation whose cursors are lawful. -/
structure Evaluation.Lawful (e : Evaluation) : Prop where
  selection : e.selection.Lawful
  filters : e.filters.Lawful

/-- What the visit of a candidate leaves: one that does not pass is only counted, and one that does
is weighed and ranked. -/
theorem visit_spec {w : Weigher} {s : Snapshot} {f : Filters} (h : f.Lawful) (selection : Walker)
    (ranking : Ranking) (visited : Nat) {d : Nat} (hd : 1 ≤ d) :
    ∃ filters : Filters, filters.Lawful ∧ filters.criteria = f.criteria ∧
      (¬ f.criteria.Meets s.metadata d → visit w s ⟨selection, f, ranking, visited⟩ d =
        .ok ⟨selection, filters, ranking, visited + 1⟩) ∧
      (f.criteria.Meets s.metadata d → visit w s ⟨selection, f, ranking, visited⟩ d =
        (weighed w s d).map fun r => ⟨selection, filters, ranking.collect r, visited + 1⟩) := by
  obtain ⟨haccept, hlawful, hcriteria⟩ := Filters.accept_asks s.metadata f h d hd
  rcases hanswer : f.accept s.metadata d with ⟨accepted, filters⟩
  rw [hanswer] at haccept hlawful hcriteria
  dsimp only at haccept hlawful hcriteria
  refine ⟨filters, hlawful, hcriteria, fun hfails => ?_, fun hmeets => ?_⟩
  · rw [← haccept, Bool.not_eq_true] at hfails
    unfold visit
    rw [hanswer, hfails]
    rfl
  · have htrue := haccept.mpr hmeets
    unfold visit weighed
    rw [hanswer, htrue]
    cases w.weigh s d <;> rfl

/-- In an ascending list of what passes a test from a number on, the nearest comes first. -/
theorem nearest_first {test : Nat → Prop} {n : Nat} {found : Option Nat} {l : List Nat}
    (h : IsNearest test n found) (hascend : l.Pairwise (· < ·))
    (hl : ∀ d, d ∈ l ↔ n ≤ d ∧ test d) :
    match found with
    | none => l = []
    | some d => ∃ rest, l = d :: rest ∧ rest.Pairwise (· < ·) ∧
        ∀ e, e ∈ rest ↔ d + 1 ≤ e ∧ test e := by
  cases found with
  | none =>
      refine List.eq_nil_iff_forall_not_mem.mpr fun d hd => ?_
      obtain ⟨hn, htest⟩ := (hl d).mp hd
      exact h d hn htest
  | some d =>
      obtain ⟨hn, htest, hleast⟩ := h
      cases l with
      | nil => exact absurd ((hl d).mpr ⟨hn, htest⟩) List.not_mem_nil
      | cons a rest =>
          obtain ⟨hfirst, hrest⟩ := List.pairwise_cons.mp hascend
          obtain ⟨ha, htest'⟩ := (hl a).mp List.mem_cons_self
          have had : a = d := by
            rcases List.mem_cons.mp ((hl d).mpr ⟨hn, htest⟩) with hd | hd
            · exact hd.symm
            · exact absurd htest' (hleast a ha (hfirst d hd))
          subst had
          refine ⟨rest, rfl, hrest, fun e => ⟨fun he => ?_, fun ⟨hlt, hpass⟩ => ?_⟩⟩
          · exact ⟨hfirst e he, ((hl e).mp (List.mem_cons_of_mem _ he)).2⟩
          · rcases List.mem_cons.mp ((hl e).mpr ⟨by omega, hpass⟩) with rfl | he
            · omega
            · exact he

/-- Visiting candidates weighs those that pass, one after the other, and ranks them. -/
theorem visitFrom_eq {w : Weigher} {s : Snapshot} {e : Evaluation} (h : e.Lawful)
    {passes : Nat → Bool} (hpasses : ∀ d, passes d = true ↔ e.filters.criteria.Meets s.metadata d)
    {fuel n : Nat} (hn : 1 ≤ n) (hfuel : e.selection.plan.bound < n + fuel)
    {visited : List Nat} (hascend : visited.Pairwise (· < ·))
    (hvisited : ∀ d, d ∈ visited ↔ n ≤ d ∧ e.selection.plan.presentAt d = true) :
    (visitFrom w s fuel e n).map (fun e => (e.ranking, e.visited)) =
      ((visited.filter passes).mapM (weighed w s)).map fun shown =>
        (shown.foldl Ranking.collect e.ranking, e.visited + visited.length) := by
  induction fuel generalizing e n visited with
  | zero =>
      have hnil : visited = [] := by
        refine List.eq_nil_iff_forall_not_mem.mpr fun d hd => ?_
        obtain ⟨hd, hpresent⟩ := (hvisited d).mp hd
        have := Plan.le_bound_of_presentAt h.selection.proper hpresent
        omega
      subst hnil
      rfl
  | succ fuel ih =>
      have hnearest := h.selection.nearest n
      rw [Nat.max_eq_left hn] at hnearest
      have hsought : (e.selection.seek n).Lawful := h.selection.seek n
      have hlist := nearest_first hnearest hascend hvisited
      unfold visitFrom
      dsimp only
      cases hdocument : (e.selection.seek n).document with
      | none =>
          rw [hdocument] at hlist
          subst hlist
          rfl
      | some d =>
          rw [hdocument] at hlist hnearest
          obtain ⟨rest, rfl, hrest, hmem⟩ := hlist
          have hd : 1 ≤ d := Nat.le_trans hn hnearest.1
          have hnd : n ≤ d := hnearest.1
          obtain ⟨filters, hlawful, hcriteria, hrefused, hweighed⟩ :=
            visit_spec (w := w) (s := s) h.filters (e.selection.seek n) e.ranking e.visited hd
          -- the rest of the candidates, whatever was ranked before
          have hgoOn : ∀ ranking,
              (visitFrom w s fuel ⟨e.selection.seek n, filters, ranking, e.visited + 1⟩ (d + 1)).map
                  (fun e => (e.ranking, e.visited)) =
                ((rest.filter passes).mapM (weighed w s)).map fun shown =>
                  (shown.foldl Ranking.collect ranking, e.visited + (d :: rest).length) := by
            intro ranking
            have hbound : (e.selection.seek n).plan.bound < d + 1 + fuel := by
              show e.selection.plan.bound < d + 1 + fuel
              omega
            have hrec := ih (e := ⟨e.selection.seek n, filters, ranking, e.visited + 1⟩)
              ⟨hsought, hlawful⟩ (fun d' => by rw [hcriteria]; exact hpasses d') (by omega) hbound
              hrest hmem
            have hcount : e.visited + 1 + rest.length = e.visited + (d :: rest).length := by
              rw [List.length_cons]
              omega
            rw [hrec, hcount]
          dsimp only
          by_cases hpass : passes d = true
          · rw [List.filter_cons_of_pos hpass, List.mapM_cons, hweighed ((hpasses d).mp hpass)]
            cases weighed w s d with
            | error fault => rfl
            | ok r =>
                refine (hgoOn (e.ranking.collect r)).trans ?_
                cases (rest.filter passes).mapM (weighed w s) <;> rfl
          · rw [List.filter_cons_of_neg hpass, hrefused (mt (hpasses d).mpr hpass)]
            exact hgoOn e.ranking

/-! ## Rankings and pages -/

variable {q : Query} {f : Filters}

/-- All documents that are selected are visited; those that pass are weighed and ranked. -/
theorem visitAll_eq (hs : q.snapshot.Published) {selected : List PlannedFeature} (w : Weigher)
    (hselected : featuresOfSets q.context q.scheme.selection = .ok selected)
    (hf : q.filters q.context = .ok f) :
    ∃ visited candidates : List Nat, visited.Pairwise (· < ·) ∧ (∀ d, d ∈ visited ↔ q.Selects d) ∧
      candidates.Sublist visited ∧ (∀ d, d ∈ candidates ↔ q.Selects d ∧ q.Passes d) ∧
      ∀ capacity,
        (visitAll w q.snapshot selected f capacity).map (fun e => (e.ranking, e.visited)) =
          (candidates.mapM (weighed w q.snapshot)).map fun shown =>
            (shown.foldl Ranking.collect { capacity }, visited.length) := by
  classical
  obtain ⟨hlawful, hmeets⟩ := filters_spec hs hf
  have hproper : (Plan.union (selected.map (·.plan))).Proper := by
    rw [Plan.Proper, Plan.properAll_iff]
    intro p hp
    obtain ⟨feature, hfeature, rfl⟩ := List.mem_map.mp hp
    exact ((planned_of_sets hs hselected).1 feature hfeature).1
  obtain ⟨hascend, hentries⟩ := hproper.allMatches_lists
  let visited := (Plan.union (selected.map (·.plan))).allMatches.map (·.1)
  have hvisited : ∀ d, d ∈ visited ↔
      1 ≤ d ∧ (Plan.union (selected.map (·.plan))).presentAt d = true := by
    intro d
    constructor
    · intro hd
      obtain ⟨⟨_, starts⟩, hfound, rfl⟩ := List.mem_map.mp hd
      obtain ⟨hd, hpresent, -⟩ := (hentries _ starts).mp hfound
      exact ⟨hd, hpresent⟩
    · rintro ⟨hd, hpresent⟩
      exact List.mem_map.mpr ⟨(d, _), (hentries d _).mpr ⟨hd, hpresent, rfl⟩, rfl⟩
  have hselects : ∀ d, d ∈ visited ↔ q.Selects d := fun d =>
    (hvisited d).trans (selects_iff hs hselected).symm
  let passes : Nat → Bool := fun d => f.criteria.Meets q.snapshot.metadata d
  refine ⟨visited, visited.filter passes, List.pairwise_map.mpr hascend, hselects,
    List.filter_sublist, fun d => ?_, fun capacity => ?_⟩
  · rw [List.mem_filter, hselects, decide_eq_true_iff]
    refine and_congr_right fun hd => hmeets d ?_
    exact ((hvisited d).mp ((hselects d).mpr hd)).1
  · have hpasses : ∀ d, passes d = true ↔ f.criteria.Meets q.snapshot.metadata d :=
      fun d => decide_eq_true_iff
    let start : Evaluation := ⟨.start (.union (selected.map (·.plan))), f, { capacity }, 0⟩
    have hstart : start.Lawful := ⟨Walker.lawful_start hproper, hlawful⟩
    have hfuel : start.selection.plan.bound < 1 + (start.selection.plan.bound + 2) := by omega
    have heq := visitFrom_eq (w := w) (s := q.snapshot) hstart hpasses (Nat.le_refl 1) hfuel
      (List.pairwise_map.mpr hascend) hvisited
    rw [Nat.zero_add] at heq
    exact heq

/-- A result that shows a page of a ranking of visited documents. -/
structure Shows (r : QueryResult) (visited : List Nat) (ranking : List Ranked)
    (minRank maxRanks : Nat) : Prop where
  visited : r.visited = visited.length
  ranked : r.ranked = ranking.length
  page : r.page = (ranking.drop minRank).take maxRanks

theorem numbers_of_weighed {w : Weigher} {s : Snapshot} {candidates : List Nat}
    {shown : List Ranked} (h : candidates.mapM (weighed w s) = .ok shown) :
    shown.map (·.number) = candidates := by
  induction candidates generalizing shown with
  | nil =>
      cases h
      rfl
  | cons d rest ih =>
      obtain ⟨r, more, hr, hmore, rfl⟩ := Fallible.mapM_cons_eq_ok.mp h
      obtain ⟨weight, -, rfl⟩ := Fallible.map_eq_ok.mp hr
      rw [List.map_cons, ih hmore]

/-- A query that has a result has one for every page, and all are pages of one ranking. -/
theorem run_spec {result : QueryResult} (hs : q.snapshot.Published) (h : q.run = .ok result) :
    ∃ visited ranking, q.IsRanking visited ranking ∧ ∀ minRank maxRanks, ∃ r,
      (q.paged minRank maxRanks).run = .ok r ∧ Shows r visited ranking minRank maxRanks := by
  obtain ⟨selected, hselected, h⟩ := Fallible.bind_eq_ok.mp h
  obtain ⟨f, hf, h⟩ := Fallible.bind_eq_ok.mp h
  obtain ⟨w, hw, h⟩ := Fallible.bind_eq_ok.mp h
  obtain ⟨e, he, h⟩ := Fallible.bind_eq_ok.mp h
  obtain ⟨summaries, hsummaries, -⟩ := Fallible.bind_eq_ok.mp h
  obtain ⟨visited, candidates, hascend, hselects, hsublist, hpasses, hvisit⟩ :=
    visitAll_eq hs w hselected hf
  obtain ⟨shown, hshown⟩ : ∃ shown, candidates.mapM (weighed w q.snapshot) = .ok shown := by
    have heq := hvisit (q.minRank + q.maxRanks)
    rw [he] at heq
    obtain ⟨shown, hshown, -⟩ := Fallible.map_eq_ok.mp heq.symm
    exact ⟨shown, hshown⟩
  have hperm := Ranking.fullRanking_perm shown
  have hnumbers := numbers_of_weighed hshown
  have hkeeps := fun capacity => Ranking.keeps_foldl (Ranking.keeps_empty capacity) shown
  have honce : ((Ranking.fullRanking shown).map (·.number)).Nodup := by
    rw [(hperm.map _).nodup_iff, hnumbers]
    exact hsublist.nodup (hascend.imp Nat.ne_of_lt)
  refine ⟨visited, Ranking.fullRanking shown,
    ⟨hascend, hselects, honce, fun d => ?_, ⟨w, hw, ?_⟩, ?_⟩, fun minRank maxRanks => ?_⟩
  · rw [(hperm.map _).mem_iff, hnumbers]
    exact hpasses d
  · intro r hr
    obtain ⟨d, -, hd⟩ := Fallible.exists_of_mem_mapM hshown (hperm.mem_iff.mp hr)
    obtain ⟨weight, hweight, rfl⟩ := Fallible.map_eq_ok.mp hd
    exact hweight
  · -- no document beats one before it, and no two have the same number
    have hinOrder : Ranking.InOrder (Ranking.fullRanking shown) := (hkeeps 0).inOrder
    refine (hinOrder.and (List.pairwise_map.mp honce)).imp fun ⟨hnot, hne⟩ => ?_
    exact Ranked.beats_of_not_beats hne hnot
  · have heq := hvisit (minRank + maxRanks)
    rw [hshown] at heq
    obtain ⟨e, he, heq⟩ := Fallible.map_eq_ok.mp heq
    rw [Prod.mk.injEq] at heq
    refine ⟨_, Fallible.bind_eq_ok.mpr ⟨selected, hselected, Fallible.bind_eq_ok.mpr ⟨f, hf,
      Fallible.bind_eq_ok.mpr ⟨w, hw, Fallible.bind_eq_ok.mpr ⟨e, he,
        Fallible.bind_eq_ok.mpr ⟨summaries, hsummaries, rfl⟩⟩⟩⟩⟩, ?_, ?_, ?_⟩
    · exact heq.2
    · show e.ranking.collected = _
      rw [heq.1]
      exact (hkeeps _).collected
    · have hslice := Ranking.page_eq shown minRank maxRanks
      rw [← heq.1] at hslice
      refine Eq.trans ?_ hslice
      rw [QueryResult.page, List.map_map]
      exact List.map_id _

/-- A word stands in three documents: once, twice beside another word, and three times. -/
def threeDocuments : List Client.Event := [
  .begin "writer" "t",
  .stage "writer" (.document "a" { search := [⟨"word", "x", 1⟩] } false),
  .stage "writer" (.document "b" { search := [⟨"word", "x", 1⟩, ⟨"word", "x", 2⟩,
    ⟨"word", "y", 3⟩] } false),
  .stage "writer" (.document "c" { search := [⟨"word", "x", 1⟩, ⟨"word", "x", 2⟩,
    ⟨"word", "x", 3⟩] } false),
  .commit "writer" 7]

/-- The document where the first word is most frequent, of those without the other word. -/
def mostFrequent (s : Snapshot) : Query where
  scheme := { selection := ["wanted"], exclusion := ["unwanted"],
              weights := [⟨.frequency Feature.defaultWeight "wanted", none⟩] }
  snapshot := s
  features := [⟨"wanted", .term ⟨"word", "x"⟩, Feature.defaultWeight⟩,
    ⟨"unwanted", .term ⟨"word", "y"⟩, Feature.defaultWeight⟩]
  maxRanks := 1

end Query

end Concordance
