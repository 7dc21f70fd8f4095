import Concordance.Proofs.Number.TotalOrder
import Concordance.Proofs.Query.Ranking
import Mathlib.Data.List.Induction

/-!
# The best of all that was shown

The order of a ranking leaves no two different documents undecided (`Ranked.eq_of_not_beats`), so
documents have one arrangement that is sorted, whatever order they come in, repeated ones included
(`Ranking.sorted_unique`). A ranking shows the first of them.

A ranking keeps its documents in order. It could as well keep them in a heap with the worst one on
top: such a heap always holds the documents of the ranking (`Ranking.HeapOf.perm_best`), however it
arranges them and whichever of the worst it has on top.
-/

namespace Concordance

namespace Ranked

/-- A document stands before another one: it has the greater weight, or equal weight and the smaller
number. -/
def Before (a b : Ranked) : Prop :=
  b.weight.totalCompare a.weight = .lt ∨ a.weight = b.weight ∧ a.number < b.number

theorem beats_iff_before {a b : Ranked} : a.beats b = true ↔ a.Before b := by
  rw [beats_iff, Before, Double.totalCompare_eq_lt]
  refine or_congr_right (and_congr_left fun _ => ⟨fun h => ?_, fun h => by rw [h]⟩)
  exact (Double.totalKey_injective h).symm

/-- Two documents that are undecided are the same. -/
theorem eq_of_not_beats {a b : Ranked} (hab : ¬ a.beats b = true) (hba : ¬ b.beats a = true) :
    a = b := by
  rw [beats_iff] at hab hba
  have hweight : a.weight = b.weight := Double.totalKey_injective (by omega)
  have hnumber : a.number = b.number := by
    rw [hweight] at hab hba
    omega
  cases a
  cases b
  cases hweight
  cases hnumber
  rfl

theorem not_beats_iff {a b : Ranked} : ¬ b.beats a = true ↔ a.Before b ∨ a = b := by
  rw [← beats_iff_before]
  constructor
  · intro hba
    by_cases hab : a.beats b = true
    · exact .inl hab
    · exact .inr (eq_of_not_beats hab hba)
  · rintro (hab | rfl)
    · exact not_beats_of_beats hab
    · rw [beats_iff]
      omega

end Ranked

namespace Ranking

variable {capacity : Nat} {shown heap l l' : List Ranked} {r top : Ranked}

/-- Every document stands before those behind it, or is equal to them. -/
abbrev Sorted (l : List Ranked) : Prop := l.Pairwise fun a b => a.Before b ∨ a = b

theorem sorted_iff : Sorted l ↔ InOrder l :=
  List.Pairwise.iff fun _ _ => Ranked.not_beats_iff.symm

theorem inOrder_unique (hperm : l.Perm l') (h : InOrder l) (h' : InOrder l') : l = l' :=
  hperm.eq_of_pairwise (fun _ _ _ _ hab hba => Ranked.eq_of_not_beats hba hab) h h'

/-- Documents can be sorted in one way only. -/
theorem sorted_unique (hperm : l.Perm l') (h : Sorted l) (h' : Sorted l') : l = l' :=
  inOrder_unique hperm (sorted_iff.mp h) (sorted_iff.mp h')

/-! ## Rankings -/

/-- The ranking of documents that are shown one after the other. -/
def ofShown (capacity : Nat) (shown : List Ranked) : Ranking := shown.foldl collect { capacity }

theorem keeps_ofShown (capacity : Nat) (shown : List Ranked) :
    (ofShown capacity shown).Keeps (fullRanking shown) :=
  keeps_foldl (keeps_empty capacity) shown

theorem best_ofShown (capacity : Nat) (shown : List Ranked) :
    (ofShown capacity shown).best = (fullRanking shown).take capacity := by
  have hbest := (keeps_ofShown capacity shown).best
  rwa [ofShown, capacity_foldl] at hbest

theorem inOrder_best (capacity : Nat) (shown : List Ranked) :
    InOrder (ofShown capacity shown).best := by
  rw [best_ofShown]
  exact (keeps_ofShown capacity shown).inOrder.sublist (List.take_sublist _ _)

/-- One more document is retained, or not, beside the best so far. -/
theorem best_concat (capacity : Nat) (shown : List Ranked) (r : Ranked) :
    (ofShown capacity (shown ++ [r])).best = retain capacity (ofShown capacity shown).best r := by
  have hcapacity := capacity_foldl { capacity } shown
  rw [ofShown, List.foldl_append, List.foldl_cons, List.foldl_nil, collect, hcapacity]
  rfl

/-- Documents that come in another order are ranked alike. -/
theorem ofShown_perm {shown' : List Ranked} (h : shown'.Perm shown) :
    ofShown capacity shown' = ofShown capacity shown := by
  have hkeeps := keeps_ofShown capacity shown
  have hkeeps' := keeps_ofShown capacity shown'
  have hfull : fullRanking shown' = fullRanking shown :=
    inOrder_unique (((fullRanking_perm shown').trans h).trans (fullRanking_perm shown).symm)
      hkeeps'.inOrder hkeeps.inOrder
  have hbest : (ofShown capacity shown').best = (ofShown capacity shown).best := by
    rw [best_ofShown, best_ofShown, hfull]
  have hcollected : (ofShown capacity shown').collected = (ofShown capacity shown).collected := by
    rw [hkeeps'.collected, hkeeps.collected, hfull]
  have hcapacity : (ofShown capacity shown').capacity = (ofShown capacity shown).capacity := by
    rw [ofShown, ofShown, capacity_foldl, capacity_foldl]
  cases hleft : ofShown capacity shown'
  cases hright : ofShown capacity shown
  simp_all

/-! ## Heaps -/

/-- The top of a heap is a document that stands before no other one, the worst that it holds. -/
structure IsTop (heap : List Ranked) (top : Ranked) : Prop where
  mem : top ∈ heap
  worst : ∀ a ∈ heap, ¬ top.Before a

/-- What a heap holds after it was shown documents: it takes them up to its capacity, and then in
place of its top if they stand before that. A heap may arrange what it holds in any way. -/
inductive HeapOf (capacity : Nat) : List Ranked → List Ranked → Prop where
  | empty : HeapOf capacity [] []
  | arrange {shown heap heap' : List Ranked} :
    HeapOf capacity shown heap → heap.Perm heap' → HeapOf capacity shown heap'
  | push {shown heap : List Ranked} {r : Ranked} :
    HeapOf capacity shown heap → heap.length < capacity → HeapOf capacity (shown ++ [r]) (r :: heap)
  | replace {shown rest : List Ranked} {r top : Ranked} :
    HeapOf capacity shown (top :: rest) → capacity ≤ (top :: rest).length →
    IsTop (top :: rest) top → r.Before top → HeapOf capacity (shown ++ [r]) (r :: rest)
  | refuse {shown heap : List Ranked} {r top : Ranked} :
    HeapOf capacity shown heap → capacity ≤ heap.length → IsTop heap top → ¬ r.Before top →
    HeapOf capacity (shown ++ [r]) heap
  /-- A heap without room has no top. -/
  | closed {shown : List Ranked} {r : Ranked} :
    HeapOf capacity shown [] → capacity = 0 → HeapOf capacity (shown ++ [r]) []

/-- The last document of a ranking is the top of every heap with the same documents. -/
theorem getLast_of_isTop (horder : InOrder l) (hperm : heap.Perm l) (htop : IsTop heap top) :
    ∃ front, l = front ++ [top] := by
  have hne : l ≠ [] := List.ne_nil_of_mem (hperm.mem_iff.mp htop.mem)
  obtain ⟨last, hgetLast⟩ := Option.ne_none_iff_exists'.mp (mt List.getLast?_eq_none_iff.mp hne)
  obtain ⟨front, rfl⟩ := List.getLast?_eq_some_iff.mp hgetLast
  have hmem : top ∈ front ++ [last] := hperm.mem_iff.mp htop.mem
  have hlast : ¬ top.beats last = true := fun hbeats =>
    htop.worst last (hperm.mem_iff.mpr (List.mem_append_right _ List.mem_cons_self))
      (Ranked.beats_iff_before.mp hbeats)
  rcases List.mem_append.mp hmem with hfront | heq
  · have hbehind := (List.pairwise_append.mp horder).2.2 top hfront last List.mem_cons_self
    exact ⟨front, by rw [Ranked.eq_of_not_beats hlast hbehind]⟩
  · exact ⟨front, by rw [List.mem_singleton.mp heq]⟩

/-- A heap holds the documents of the ranking. -/
theorem HeapOf.perm_best (h : HeapOf capacity shown heap) :
    heap.Perm (ofShown capacity shown).best := by
  induction h with
  | empty => exact .refl _
  | arrange _ hperm ih => exact hperm.symm.trans ih
  | push _ hroom ih =>
      rw [best_concat, retain, if_pos (by rwa [← ih.length_eq])]
      exact (ih.cons _).trans (place_perm _ _).symm
  | @replace shown rest r top _ hfull htop hbefore ih =>
      obtain ⟨front, hfront⟩ := getLast_of_isTop (inOrder_best capacity shown) ih htop
      rw [best_concat, retain, if_neg (by rw [← ih.length_eq]; omega), hfront,
        List.getLast?_concat, List.dropLast_concat]
      rw [hfront] at ih
      have hrest : rest.Perm front := (List.perm_cons top).mp (ih.trans List.perm_append_comm)
      simp only [if_pos (Ranked.beats_iff_before.mpr hbefore)]
      exact (hrest.cons r).trans (place_perm r front).symm
  | @refuse shown heap r top _ hfull htop hbehind ih =>
      obtain ⟨front, hfront⟩ := getLast_of_isTop (inOrder_best capacity shown) ih htop
      rw [best_concat, retain, if_neg (by rw [← ih.length_eq]; omega), hfront,
        List.getLast?_concat]
      simp only [if_neg (mt Ranked.beats_iff_before.mp hbehind)]
      rwa [← hfront]
  | @closed shown r _ hzero ih =>
      have hnone : (ofShown capacity shown).best = [] := ih.symm.eq_nil
      rw [best_concat, hnone, retain, if_neg (by rw [hzero]; exact Nat.not_lt_zero _)]
      exact .refl _

/-- The ranking itself is such a heap, its worst document being the last. -/
theorem heapOf_best (capacity : Nat) (shown : List Ranked) :
    HeapOf capacity shown (ofShown capacity shown).best := by
  induction shown using List.reverseRecOn with
  | nil => exact .empty
  | append_singleton shown r ih =>
      rw [best_concat, retain]
      split
      · next hroom => exact (ih.push hroom).arrange (place_perm r _).symm
      · next hfull =>
          split
          · next worst hworst =>
              have horder := inOrder_best capacity shown
              obtain ⟨front, hfront⟩ := List.getLast?_eq_some_iff.mp hworst
              rw [hfront] at ih horder hfull ⊢
              have hbehind := (List.pairwise_append.mp horder).2.2
              have htop : IsTop (front ++ [worst]) worst := by
                refine ⟨List.mem_append_right _ List.mem_cons_self, fun a ha hbefore => ?_⟩
                have hbeats := Ranked.beats_iff_before.mpr hbefore
                rcases List.mem_append.mp ha with ha | ha
                · exact hbehind a ha worst List.mem_cons_self hbeats
                · rw [List.mem_singleton.mp ha] at hbeats
                  exact Ranked.not_beats_of_beats hbeats hbeats
              split
              · next hbeats =>
                  rw [List.dropLast_concat]
                  have hfirst : (front ++ [worst]).Perm (worst :: front) := List.perm_append_comm
                  have hheap := ih.arrange hfirst
                  refine (hheap.replace ?_ ⟨List.mem_cons_self, ?_⟩
                    (Ranked.beats_iff_before.mp hbeats)).arrange (place_perm r front).symm
                  · rw [← hfirst.length_eq]
                    omega
                  · exact fun a ha => htop.worst a (hfirst.mem_iff.mpr ha)
              · next hnot =>
                  exact ih.refuse (by omega) htop (mt Ranked.beats_iff_before.mpr hnot)
          · next hnone =>
              rw [List.getLast?_eq_none_iff] at hnone
              rw [hnone] at ih hfull ⊢
              exact ih.closed (Nat.eq_zero_of_not_pos hfull)

/-- A ranking shows the first of all documents that it was shown, sorted by weight downwards in the
total order of all doubles and then by number upwards. There is one such arrangement, so the order
in which they come makes no difference. What a heap holds in its place are the same documents. -/
theorem shows_first_of_sorted (capacity : Nat) (shown : List Ranked) :
    Double.IsTotalOrder (fun x y => x.totalCompare y = .lt) ∧
    ∃ full, full.Perm shown ∧ Sorted full ∧
      (∀ l, l.Perm shown → Sorted l → l = full) ∧
      (ofShown capacity shown).best = full.take capacity ∧
      (ofShown capacity shown).collected = shown.length ∧
      (∀ shown', shown'.Perm shown → ofShown capacity shown' = ofShown capacity shown) ∧
      (∃ heap, HeapOf capacity shown heap) ∧
      ∀ heap sorted, HeapOf capacity shown heap → sorted.Perm heap → Sorted sorted →
        sorted = full.take capacity := by
  have hkeeps := keeps_ofShown capacity shown
  have hperm := fullRanking_perm shown
  have hsorted : Sorted (fullRanking shown) := sorted_iff.mpr hkeeps.inOrder
  refine ⟨Double.isTotalOrder_totalCompare, fullRanking shown, hperm, hsorted, ?_,
    best_ofShown capacity shown, ?_, fun _ => ofShown_perm, ⟨_, heapOf_best capacity shown⟩, ?_⟩
  · intro l hl hlsorted
    exact sorted_unique (hl.trans hperm.symm) hlsorted hsorted
  · rw [hkeeps.collected, hperm.length_eq]
  · intro heap sorted hheap hsame hordered
    rw [← best_ofShown capacity shown]
    exact sorted_unique (hsame.trans hheap.perm_best) hordered
      (sorted_iff.mpr (inOrder_best capacity shown))

/-- A NaN without a sign stands before all numbers, and -0 behind 0. -/
example : ((ofShown 2 [⟨1, ⟨0x8000000000000000⟩⟩, ⟨3, ⟨0⟩⟩, ⟨2, Double.nan⟩]).best.map (·.number)) =
    [2, 3] := by decide

end Ranking

end Concordance
