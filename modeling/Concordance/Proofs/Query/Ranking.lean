import Concordance.Query.Ranking

/-!
# What a ranking keeps

A ranking holds the first documents of the full ranking, up to its capacity, whatever it has let go:
documents that are dropped stay behind the capacity however many follow (`Keeps.collect`). The full
ranking is in order and has every document that was shown.
-/

namespace Concordance

namespace Ranked

theorem beats_iff {a b : Ranked} :
    a.beats b = true ↔ b.weight.totalKey < a.weight.totalKey ∨
      b.weight.totalKey = a.weight.totalKey ∧ a.number < b.number := by
  unfold beats Double.totalCompare
  rw [decide_eq_true_eq, Ordering.then_eq_lt, Int.compare_eq_lt, Std.compare_eq_iff_eq,
    Nat.compare_eq_lt]

/-- Of three documents, one that does not beat the second, which does not beat the third, does not
beat the third. -/
theorem not_beats_trans {a b c : Ranked} (hba : ¬ b.beats a = true) (hcb : ¬ c.beats b = true) :
    ¬ c.beats a = true := by
  rw [beats_iff] at *
  omega

theorem not_beats_of_beats {a b : Ranked} (h : a.beats b = true) : ¬ b.beats a = true := by
  rw [beats_iff] at *
  omega

/-- Of two documents with different numbers one beats the other. -/
theorem beats_of_not_beats {a b : Ranked} (hne : a.number ≠ b.number) (h : ¬ b.beats a = true) :
    a.beats b = true := by
  rw [beats_iff] at *
  omega

end Ranked

namespace Ranking

/-- A ranking in order: no document beats one before it. -/
abbrev InOrder (l : List Ranked) : Prop := l.Pairwise fun a b => ¬ b.beats a = true

variable {l : List Ranked} {r : Ranked}

theorem place_perm (r : Ranked) (l : List Ranked) : (place r l).Perm (r :: l) := by
  induction l with
  | nil => exact .refl _
  | cons first rest ih =>
      rw [place]
      split
      · exact .refl _
      · exact (ih.cons first).trans (.swap r first rest)

theorem inOrder_place (r : Ranked) (h : InOrder l) : InOrder (place r l) := by
  induction l with
  | nil => exact List.pairwise_singleton _ _
  | cons first rest ih =>
      obtain ⟨hfirst, hrest⟩ := List.pairwise_cons.mp h
      rw [place]
      split
      · next hbeats =>
          refine List.pairwise_cons.mpr ⟨fun b hb => ?_, h⟩
          have hnot := Ranked.not_beats_of_beats hbeats
          rcases List.mem_cons.mp hb with rfl | hb
          · exact hnot
          · exact Ranked.not_beats_trans hnot (hfirst b hb)
      · next hnot =>
          refine List.pairwise_cons.mpr ⟨fun b hb => ?_, ih hrest⟩
          rcases List.mem_cons.mp ((place_perm r rest).mem_iff.mp hb) with rfl | hb
          · exact hnot
          · exact hfirst b hb

/-- The first documents do not depend on what stands behind them. -/
theorem take_place_take (r : Ranked) (l : List Ranked) (n : Nat) :
    (place r (l.take n)).take n = (place r l).take n := by
  induction l generalizing n with
  | nil => rw [List.take_nil]
  | cons first rest ih =>
      cases n with
      | zero => rfl
      | succ n =>
          rw [List.take_succ_cons, place, place]
          split
          · have hfront : (first :: rest.take n).take n = (first :: rest).take n := by
              rw [← List.take_succ_cons, List.take_take, Nat.min_eq_left (Nat.le_succ n)]
            rw [List.take_succ_cons, List.take_succ_cons, hfront]
          · rw [List.take_succ_cons, List.take_succ_cons, ih]

theorem place_of_not_beats (h : ∀ a ∈ l, ¬ r.beats a = true) : place r l = l ++ [r] := by
  induction l with
  | nil => rfl
  | cons first rest ih =>
      obtain ⟨hfirst, hrest⟩ := List.forall_mem_cons.mp h
      rw [place, if_neg hfirst, ih hrest, List.cons_append]

theorem place_append {worst : Ranked} (h : r.beats worst = true) :
    place r (l ++ [worst]) = place r l ++ [worst] := by
  induction l with
  | nil => simp [place, h]
  | cons first rest ih =>
      rw [List.cons_append, place, place, ih]
      split <;> rfl

/-- Among the best documents a new one takes its place, and the last one leaves if there are too
many. -/
theorem retain_eq {capacity : Nat} (h : InOrder l) (hlength : l.length ≤ capacity) :
    retain capacity l r = (place r l).take capacity := by
  have hplaced : (place r l).length = l.length + 1 := (place_perm r l).length_eq
  unfold retain
  split
  · next hroom => rw [List.take_of_length_le (by omega)]
  · next hfull =>
      have hcapacity : capacity = l.length := by omega
      split
      · next worst hworst =>
          obtain ⟨front, rfl⟩ := List.getLast?_eq_some_iff.mp hworst
          have hbehind := (List.pairwise_append.mp h).2.2
          split
          · next hbeats =>
              have hlength : (place r front).length = capacity := by
                rw [(place_perm r front).length_eq, hcapacity]
                simp
              rw [List.dropLast_concat, place_append hbeats, List.take_left' hlength]
          · next hnot =>
              -- no document is beaten, so the new one comes last
              have hlast : ∀ a ∈ front ++ [worst], ¬ r.beats a = true := by
                intro a ha
                rcases List.mem_append.mp ha with ha | ha
                · exact Ranked.not_beats_trans (hbehind a ha worst List.mem_cons_self) hnot
                · rwa [List.mem_singleton.mp ha]
              rw [place_of_not_beats hlast, List.take_left' hcapacity.symm]
      · next hnone =>
          rw [List.getLast?_eq_none_iff] at hnone
          subst hnone
          rw [hcapacity]
          rfl

/-- A ranking that was shown the documents of a full ranking. -/
structure Keeps (ranking : Ranking) (full : List Ranked) : Prop where
  inOrder : InOrder full
  best : ranking.best = full.take ranking.capacity
  collected : ranking.collected = full.length

theorem keeps_empty (capacity : Nat) : Keeps { capacity } [] where
  inOrder := List.Pairwise.nil
  best := by rw [List.take_nil]
  collected := rfl

theorem Keeps.collect {ranking : Ranking} {full : List Ranked} (h : ranking.Keeps full)
    (r : Ranked) : (ranking.collect r).Keeps (place r full) where
  inOrder := inOrder_place r h.inOrder
  best := by
    show retain ranking.capacity ranking.best r = (place r full).take ranking.capacity
    rw [h.best, retain_eq (h.inOrder.sublist (List.take_sublist _ _)) (List.length_take_le _ _),
      take_place_take]
  collected := by
    show ranking.collected + 1 = _
    rw [h.collected, (place_perm r full).length_eq, List.length_cons]

/-- The full ranking of documents. -/
def fullRanking (shown : List Ranked) : List Ranked := shown.foldl (fun l r => place r l) []

theorem foldl_place_perm (shown l : List Ranked) :
    (shown.foldl (fun l r => place r l) l).Perm (shown ++ l) := by
  induction shown generalizing l with
  | nil => exact .refl _
  | cons r rest ih =>
      have hplaced : (rest ++ place r l).Perm (rest ++ r :: l) := (place_perm r l).append_left rest
      exact ((ih (place r l)).trans hplaced).trans List.perm_middle

theorem fullRanking_perm (shown : List Ranked) : (fullRanking shown).Perm shown := by
  have hperm := foldl_place_perm shown []
  rwa [List.append_nil] at hperm

theorem keeps_foldl {ranking : Ranking} {full : List Ranked} (h : ranking.Keeps full)
    (shown : List Ranked) :
    (shown.foldl collect ranking).Keeps (shown.foldl (fun l r => place r l) full) := by
  induction shown generalizing ranking full with
  | nil => exact h
  | cons r rest ih => exact ih (h.collect r)

theorem capacity_foldl (ranking : Ranking) (shown : List Ranked) :
    (shown.foldl collect ranking).capacity = ranking.capacity := by
  induction shown generalizing ranking with
  | nil => rfl
  | cons r rest ih => exact ih (ranking.collect r)

/-- Between two ranks a ranking has what the full ranking has. -/
theorem page_eq (shown : List Ranked) (minRank maxRanks : Nat) :
    ((shown.foldl collect { capacity := minRank + maxRanks }).best.drop minRank).take maxRanks =
      ((fullRanking shown).drop minRank).take maxRanks := by
  have hkeeps := keeps_foldl (keeps_empty (minRank + maxRanks)) shown
  rw [hkeeps.best, capacity_foldl, List.drop_take, Nat.add_sub_cancel_left, List.take_take,
    Nat.min_self]
  rfl

/-- Pages of one size, one behind the other, are a list. -/
theorem flatMap_pages (l : List Ranked) (size count : Nat) :
    (List.range count).flatMap (fun k => (l.drop (size * k)).take size) = l.take (size * count) := by
  induction count with
  | zero => simp
  | succ count ih =>
      rw [List.range_succ, List.flatMap_append, ih, List.flatMap_singleton, Nat.mul_succ,
        List.take_add]

end Ranking

end Concordance
