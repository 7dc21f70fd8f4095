import Concordance.Proofs.Query.Cursor
import Concordance.Proofs.Query.Planning

/-!
# The matches of a pattern

A walk through all documents of a plan lists those that are present, in ascending order and each
once, with the starts of their spans (`Cursor.collectFrom_lists`). Together with what plans mean this
says what is answered for a pattern: an error if it is malformed, and otherwise the stored documents
where its meaning is not empty (`Snapshot.matches_are_meant`).
-/

namespace Concordance

namespace Cursor

/-- A list of the documents of a plan from a number on, with the starts of their matches. -/
structure Lists (p : Plan) (n : Nat) (found : List (Nat × List Nat)) : Prop where
  ascend : found.Pairwise fun a b => a.1 < b.1
  entries : ∀ d starts, (d, starts) ∈ found ↔
    n ≤ d ∧ p.presentAt d = true ∧ starts = (p.spansAt d).map (·.start)

variable {p : Plan} {c : Cursor}

/-- A walk lists all documents from a number on, if it has a step for each number up to the bound. -/
theorem collectFrom_lists (hp : p.Proper) (h : Reached p c) {fuel n : Nat} (hn : 1 ≤ n)
    (hfuel : p.bound < n + fuel) : Lists p n (collectFrom p fuel c n).1 := by
  -- above the bound there is nothing to list
  have hnothing : ∀ {m : Nat}, (∀ d, m ≤ d → ¬ p.presentAt d = true) → Lists p m [] := by
    intro m hnone
    refine ⟨List.Pairwise.nil, fun d starts => ?_⟩
    simp only [List.not_mem_nil, false_iff]
    rintro ⟨hd, hpresent, -⟩
    exact hnone d hd hpresent
  induction fuel generalizing c n with
  | zero =>
      refine hnothing fun d hd hpresent => ?_
      have := Plan.le_bound_of_presentAt hp hpresent
      omega
  | succ fuel ih =>
      have hnearest := hp.lawful.nearest h n
      rw [Nat.max_eq_left hn] at hnearest
      have hreached : Reached p (seek p c n) := h.seek n
      unfold collectFrom
      dsimp only
      cases hdocument : (seek p c n).document with
      | none =>
          rw [hdocument] at hnearest
          exact hnothing hnearest
      | some d =>
          rw [hdocument] at hnearest
          obtain ⟨hd, hpresent, hleast⟩ := hnearest
          have hwalk := hp.lawful.walk_fst hp hreached hdocument
          obtain ⟨hascend, hentries⟩ : Lists p (d + 1)
              (collectFrom p fuel (seek p c n).walk.2 (d + 1)).1 :=
            ih hreached.walk (Nat.succ_le_succ (Nat.zero_le d)) (by omega)
          dsimp only
          rw [hwalk]
          refine ⟨List.pairwise_cons.mpr ⟨?_, hascend⟩, fun e starts => ?_⟩
          · rintro ⟨e, starts⟩ he
            exact ((hentries e starts).mp he).1
          · rw [List.mem_cons, hentries, Prod.mk.injEq]
            constructor
            · rintro (⟨rfl, rfl⟩ | ⟨he, hfound⟩)
              · exact ⟨hd, hpresent, rfl⟩
              · exact ⟨by omega, hfound⟩
            · rintro ⟨he, hfound, rfl⟩
              rcases Nat.lt_trichotomy e d with hlt | rfl | hgt
              · exact absurd hfound (hleast e he hlt)
              · exact .inl ⟨rfl, rfl⟩
              · exact .inr ⟨hgt, hfound, rfl⟩

end Cursor

theorem Plan.Proper.allMatches_lists {p : Plan} (hp : p.Proper) :
    Cursor.Lists p 1 p.allMatches :=
  Cursor.collectFrom_lists hp .start (Nat.le_refl 1) (by omega)

namespace Snapshot

open Concordance.Span

/-- A list of the stored documents that have matches of a pattern, with the starts of these. -/
structure ListsMatches (s : Snapshot) (p : Pattern) (found : List (Nat × List Nat)) : Prop where
  /-- The documents ascend, so each is listed once. -/
  ascend : found.Pairwise fun a b => a.1 < b.1
  documents : ∀ d, (∃ starts, (d, starts) ∈ found) ↔
    (∃ stored, s.documents.get? d = some stored) ∧ (s.meaning d p).Nonempty
  starts : ∀ d starts, (d, starts) ∈ found →
    starts.Pairwise (· < ·) ∧ ∀ n, n ∈ starts ↔ IsStart (s.meaning d p) n

variable {s : Snapshot} {p : Pattern} {q : Plan}

/-- Where a plan that stands for a pattern is present, the pattern has matches. -/
theorem presentAt_iff_nonempty (h : p.Renders s q) {d : Nat} :
    q.presentAt d = true ↔
      (∃ stored, s.documents.get? d = some stored) ∧ (s.meaning d p).Nonempty := by
  rw [h.spans, nonempty_toSet]
  constructor
  · exact fun hpresent => ⟨h.stored d hpresent, h.tangible d hpresent⟩
  · rintro ⟨-, hne⟩
    obtain ⟨x, hx⟩ := List.exists_mem_of_ne_nil _ hne
    exact Plan.presentAt_of_mem_spansAt hx

theorem listsMatches_of_renders (h : s.Sound) (hq : p.Renders s q) :
    s.ListsMatches p q.allMatches := by
  obtain ⟨hascend, hentries⟩ := hq.proper.allMatches_lists
  refine ⟨hascend, fun d => ?_, fun d starts hfound => ?_⟩
  · rw [← presentAt_iff_nonempty hq]
    constructor
    · rintro ⟨starts, hfound⟩
      exact ((hentries d starts).mp hfound).2.1
    · intro hpresent
      obtain ⟨stored, hget⟩ := hq.stored d hpresent
      exact ⟨_, (hentries d _).mpr ⟨h.one_le_of_stored hget, hpresent, rfl⟩⟩
  · obtain ⟨-, -, rfl⟩ := (hentries d starts).mp hfound
    refine ⟨List.pairwise_map.mpr (Plan.areMatches_spansAt hq.proper d).ascend, fun n => ?_⟩
    rw [hq.spans, List.mem_map]
    rfl

/-- Two words of a document, one of which stands alone at its first position. -/
def twoWords : List Client.Event := [
  .begin "writer" "t",
  .stage "writer" (.document "a" { search := [⟨"word", "x", 1⟩, ⟨"word", "x", 3⟩,
    ⟨"word", "y", 3⟩] } false),
  .commit "writer" 7]

/-- Where the first word stands without the second one. -/
def alone : Pattern := .structure .difference 0 0 [.term ⟨"word", "x"⟩, .term ⟨"word", "y"⟩]

end Snapshot

end Concordance
