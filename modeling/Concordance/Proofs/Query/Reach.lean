import Concordance.Proofs.Query.Plan
import Concordance.Query.Cursor

/-!
# Where calls lead a cursor

A cursor of a plan can be anywhere that calls lead to (`Cursor.Reached`). It is lawful if from there
every seek finds the nearest document, and what it holds are the matches of its document
(`Cursor.Lawful`). Walks and seeks inside a document answer from what it holds.
-/

namespace Concordance

namespace Cursor

/-! ## Inside a document -/

/-- A walk changes nothing but the current match. -/
theorem walkFrom_snd (fuel : Nat) (c : Cursor) (q : Nat) :
    ∃ s, (walkFrom fuel c q).2 = { c with current := s } := by
  induction fuel generalizing c q with
  | zero =>
      cases c
      exact ⟨_, rfl⟩
  | succ fuel ih =>
      unfold walkFrom
      dsimp only
      split
      · exact ⟨_, rfl⟩
      · split
        · exact ⟨_, rfl⟩
        · next s _ _ =>
            obtain ⟨t, ht⟩ := ih (c.seekPosition q) (s.start + 1)
            exact ⟨t, ht⟩

theorem walk_snd (c : Cursor) : ∃ s, c.walk.2 = { c with current := s } :=
  walkFrom_snd _ c 1

/-- With enough fuel a walk passes all matches from a position on. -/
theorem walkFrom_fst {c : Cursor} (h : Span.AreMatches c.found) {fuel q : Nat} (hq : 1 ≤ q)
    (hfuel : (c.found.filter (q ≤ ·.start)).length < fuel) :
    (walkFrom fuel c q).1 = c.found.filter (q ≤ ·.start) := by
  induction fuel generalizing c q with
  | zero => exact absurd hfuel (Nat.not_lt_zero _)
  | succ fuel ih =>
      unfold walkFrom
      dsimp only [seekPosition]
      rw [Nat.max_eq_left hq]
      cases hfirst : Span.firstFrom? q c.found with
      | none =>
          have hnone := List.find?_eq_none.mp hfirst
          exact (List.filter_eq_nil_iff.mpr hnone).symm
      | some s =>
          have hfrom := Span.filter_from h.ascend hfirst
          dsimp only
          rw [hfrom]
          split
          · next hlast =>
              -- behind the last position there is no match
              have hnone : c.found.filter (s.start + 1 ≤ ·.start) = [] := by
                refine List.filter_eq_nil_iff.mpr fun t ht => ?_
                have := (h.position t ht).2
                simp
                omega
              rw [hnone]
          · rw [hfrom, List.length_cons] at hfuel
            have hrest := ih (c := { c with current := some s }) h
              (Nat.succ_le_succ (Nat.zero_le s.start)) (Nat.lt_of_succ_lt_succ hfuel)
            dsimp only at hrest ⊢
            rw [hrest]

/-- A walk passes all matches. -/
theorem walk_fst {c : Cursor} (h : Span.AreMatches c.found) : c.walk.1 = c.found := by
  have hall : c.found.filter (1 ≤ ·.start) = c.found :=
    List.filter_eq_self.mpr fun s hs => by simpa using (h.position s hs).1
  rw [walk, walkFrom_fst h (Nat.le_refl 1), hall]
  rw [hall]
  exact Nat.lt_succ_self _

/-- A seek inside a document finds the nearest start of a match. -/
theorem seekPosition_nearest {c : Cursor} (h : Span.AreMatches c.found) (q : Nat) :
    IsNearest (fun start => ∃ s ∈ c.found, s.start = start) (max q 1)
      ((c.seekPosition q).current.map (·.start)) :=
  IsNearest.find? h.ascend (max q 1)

/-! ## Lawful cursors -/

/-- The cursors of a plan that calls lead to. -/
inductive Reached (p : Plan) : Cursor → Prop
  | start : Reached p (start p)
  | seek {c : Cursor} (n : Nat) : Reached p c → Reached p (seek p c n)
  | seekPosition {c : Cursor} (q : Nat) : Reached p c → Reached p (c.seekPosition q)

theorem Reached.walkFrom {p : Plan} {c : Cursor} (h : Reached p c) (fuel q : Nat) :
    Reached p (walkFrom fuel c q).2 := by
  induction fuel generalizing c q with
  | zero => exact h
  | succ fuel ih =>
      unfold Cursor.walkFrom
      dsimp only
      split
      · exact h.seekPosition q
      · split
        · exact h.seekPosition q
        · exact ih (h.seekPosition q) _

theorem Reached.walk {p : Plan} {c : Cursor} (h : Reached p c) : Reached p c.walk.2 :=
  h.walkFrom _ 1

/-- What a cursor holds are the matches of its document. -/
def Stands (p : Plan) (c : Cursor) : Prop :=
  match c.document with
  | some d => p.matchesAt d = some c.found
  | none => c.found = []

/-- The cursors of a plan find the nearest documents, wherever calls have led them. -/
structure Lawful (p : Plan) : Prop where
  stands : ∀ {c : Cursor}, Reached p c → Stands p c
  nearest : ∀ {c : Cursor}, Reached p c → ∀ n,
    IsNearest (fun d => p.presentAt d) (max n 1) (Cursor.seek p c n).document

theorem Lawful.found {p : Plan} {c : Cursor} (hlaw : Lawful p) (h : Reached p c) :
    c.found = (c.document.map p.spansAt).getD [] := by
  have hstands := hlaw.stands h
  unfold Stands at hstands
  cases hdoc : c.document with
  | none => simpa [hdoc] using hstands
  | some d =>
      rw [hdoc] at hstands
      exact (Plan.spansAt_of_matchesAt hstands).symm

theorem Lawful.walk_fst {p : Plan} {c : Cursor} {d : Nat} (hlaw : Lawful p) (hp : p.Proper)
    (h : Reached p c) (hd : c.document = some d) : c.walk.1 = p.spansAt d := by
  have hfound := hlaw.found h
  rw [hd, Option.map_some, Option.getD_some] at hfound
  rw [Cursor.walk_fst, hfound]
  rw [hfound]
  exact Plan.areMatches_spansAt hp d

/-- A cursor that is sent to a document brings its matches. -/
theorem Lawful.matchesIn {p : Plan} {c : Cursor} (hlaw : Lawful p) (hp : p.Proper)
    (h : Reached p c) {d : Nat} (hd : 1 ≤ d) :
    (c.matchesIn (Cursor.seek p) d).1 = p.spansAt d ∧
      Reached p (c.matchesIn (Cursor.seek p) d).2 := by
  have hnearest := hlaw.nearest h d
  rw [Nat.max_eq_left hd] at hnearest
  have hreached : Reached p (Cursor.seek p c d) := h.seek d
  unfold Cursor.matchesIn
  dsimp only
  split
  · next hthere => exact ⟨hlaw.walk_fst hp hreached hthere, hreached.walk⟩
  · next hnot =>
      refine ⟨?_, hreached⟩
      have habsent : ¬ p.presentAt d = true := mt hnearest.eq_self_iff.mpr hnot
      rw [Plan.presentAt, Option.not_isSome_iff_eq_none] at habsent
      rw [Plan.spansAt, habsent, Option.getD_none]

end Cursor

end Concordance
