import Concordance.Catalog.Snapshot
import Concordance.Proofs.SortedMap

/-!
# What posting lists say

The posting lists of a snapshot are read through one look-up, `positionsOf?`: the positions of a
term in a document. This module says what entering and erasing the terms of a document do to that
look-up, and that no empty list is left behind (`TrimPostings`). Trim posting lists are determined
by the look-up (`TrimPostings.ext`), and their frequencies count documents.
-/

namespace Concordance.Snapshot

/-- The positions of a term in a document, as the posting lists have them. -/
def positionsOf? (postings : SortedMap Term Postings) (t : Term) (number : Nat) :
    Option (List Nat) :=
  (postings.get? t).bind (·.get? number)

/-- No posting list is empty. -/
def TrimPostings (postings : SortedMap Term Postings) : Prop :=
  ∀ t list, postings.get? t = some list → list.isEmpty = false

theorem trimPostings_empty : TrimPostings ∅ := by
  intro t list h
  cases h

theorem positionsOf?_eq_getD (postings : SortedMap Term Postings) (t : Term) (number : Nat) :
    positionsOf? postings t number = (postings.getD t ∅).get? number := by
  unfold positionsOf? SortedMap.getD
  cases postings.get? t <;> rfl

theorem isEmpty_eq_false_iff {list : Postings} :
    list.isEmpty = false ↔ ∃ number positions, list.get? number = some positions :=
  SortedMap.not_isEmpty_iff

theorem Postings.ext_get? {p q : Postings} (h : ∀ number, p.get? number = q.get? number) :
    p = q := by
  obtain ⟨m⟩ := p
  obtain ⟨m'⟩ := q
  exact congrArg _ (SortedMap.ext_get? h)

theorem TrimPostings.ne_empty {p : SortedMap Term Postings} (h : TrimPostings p) {t : Term}
    {list : Postings} (hget : p.get? t = some list) : list ≠ ∅ := by
  rintro rfl
  cases h t ∅ hget

/-- Trim posting lists are determined by the positions they hold. -/
theorem TrimPostings.ext {p q : SortedMap Term Postings} (hp : TrimPostings p)
    (hq : TrimPostings q)
    (h : ∀ t number, positionsOf? p t number = positionsOf? q t number) : p = q := by
  refine SortedMap.ext_getD (fun _ _ => hp.ne_empty) (fun _ _ => hq.ne_empty) fun t => ?_
  apply Postings.ext_get?
  intro number
  rw [← positionsOf?_eq_getD, ← positionsOf?_eq_getD, h]

/-! ## Erasing a document -/

theorem positionsOf?_erasePosting {number x : Nat} {postings : SortedMap Term Postings}
    {t u : Term} :
    positionsOf? (erasePosting number postings t) u x =
      if x = number ∧ u = t then none else positionsOf? postings u x := by
  unfold erasePosting
  cases hget : postings.get? t with
  | none =>
      by_cases hu : u = t
      · subst hu
        simp [positionsOf?, hget]
      · simp [hu]
  | some list =>
      have hleft : (list.erase number).get? x = if x = number then none else list.get? x :=
        SortedMap.get?_erase _ _ _
      dsimp only
      split
      · next hempty =>
          by_cases hu : u = t
          · subst hu
            have hnone : (list.erase number).get? x = none := SortedMap.isEmpty_iff.mp hempty x
            rw [hleft] at hnone
            by_cases hx : x = number
            · simp [positionsOf?, hx]
            · rw [if_neg hx] at hnone
              simp [positionsOf?, hx, hget, hnone]
          · simp [positionsOf?, hu]
      · by_cases hu : u = t
        · subst hu
          simp [positionsOf?, hget, hleft]
        · simp [positionsOf?, hu]

/-- Erasing a document from the lists of some terms. -/
theorem positionsOf?_foldl_erasePosting {number x : Nat} {terms : List Term}
    {postings : SortedMap Term Postings} {u : Term} :
    positionsOf? (terms.foldl (erasePosting number) postings) u x =
      if x = number ∧ u ∈ terms then none else positionsOf? postings u x := by
  induction terms generalizing postings with
  | nil => simp
  | cons t rest ih =>
      rw [List.foldl_cons, ih, positionsOf?_erasePosting]
      by_cases hx : x = number
      · by_cases hu : u = t <;> simp [hx, hu]
      · simp [hx]

theorem TrimPostings.erasePosting {postings : SortedMap Term Postings} (h : TrimPostings postings)
    (number : Nat) (t : Term) : TrimPostings (erasePosting number postings t) := by
  unfold Snapshot.erasePosting
  split
  · exact h
  · next list hget =>
      intro u left hu
      rcases SortedMap.get?_erase_or_insert hu with ⟨hleft, rfl⟩ | hu
      · exact hleft
      · exact h u left hu

theorem TrimPostings.foldl_erasePosting {postings : SortedMap Term Postings}
    (h : TrimPostings postings) (number : Nat) (terms : List Term) :
    TrimPostings (terms.foldl (Snapshot.erasePosting number) postings) := by
  induction terms generalizing postings with
  | nil => exact h
  | cons t rest ih => exact ih (h.erasePosting number t)

/-! ## Entering a document -/

theorem positionsOf?_enterPosting {number x : Nat} {postings : SortedMap Term Postings}
    {entry : Term × List Nat} {u : Term} :
    positionsOf? (enterPosting number postings entry) u x =
      if x = number ∧ u = entry.1 then some (ascending entry.2)
      else positionsOf? postings u x := by
  rw [positionsOf?_eq_getD, positionsOf?_eq_getD, enterPosting, SortedMap.getD,
    SortedMap.get?_insert]
  by_cases hu : u = entry.1
  · have hget : ((postings.getD entry.1 ∅).insert number entry.2).get? x =
        if x = number then some (ascending entry.2) else (postings.getD entry.1 ∅).get? x :=
      SortedMap.get?_insert _ _ _ _
    rw [if_pos hu, Option.getD_some, hget, hu]
    by_cases hx : x = number <;> simp [hx]
  · simp [hu, SortedMap.getD]

/-- Entering the search terms of a document, each of them once. -/
theorem positionsOf?_foldl_enterPosting {number x : Nat} {search : SortedMap Term (List Nat)}
    {postings : SortedMap Term Postings} {u : Term} :
    positionsOf? (search.toList.foldl (enterPosting number) postings) u x =
      if x = number then ((search.get? u).map ascending).or (positionsOf? postings u x)
      else positionsOf? postings u x := by
  have hstep : ∀ (entries : List (Term × List Nat)) (postings : SortedMap Term Postings),
      KeysAscend entries →
      positionsOf? (entries.foldl (enterPosting number) postings) u x =
        if x = number then
          ((SortedMap.lookupPairs u entries).map ascending).or (positionsOf? postings u x)
        else positionsOf? postings u x := by
    intro entries
    induction entries with
    | nil => simp [SortedMap.lookupPairs]
    | cons entry rest ih =>
        intro postings hasc
        obtain ⟨hhead, htail⟩ := List.pairwise_cons.mp hasc
        rw [List.foldl_cons, ih _ htail, positionsOf?_enterPosting]
        by_cases hx : x = number
        · by_cases hu : u = entry.1
          · have hnone : SortedMap.lookupPairs u rest = none := by
              rw [hu]
              refine SortedMap.not_mem_keys (m := ⟨rest, htail⟩) |>.mp fun hmem => ?_
              obtain ⟨e, he, heq⟩ := List.mem_map.mp hmem
              have := hhead e he
              rw [heq] at this
              simp at this
            rw [if_pos hx, if_pos hx, if_pos ⟨hx, hu⟩, hnone]
            simp [SortedMap.lookupPairs, hu]
          · rw [if_pos hx, if_pos hx, if_neg (fun h => hu h.2)]
            simp [SortedMap.lookupPairs, hu]
        · simp [hx]
  exact hstep search.toList postings search.ascending

theorem TrimPostings.enterPosting {postings : SortedMap Term Postings} (h : TrimPostings postings)
    (number : Nat) (entry : Term × List Nat) :
    TrimPostings (enterPosting number postings entry) := by
  intro u list hu
  rw [Snapshot.enterPosting, SortedMap.get?_insert] at hu
  by_cases hne : u = entry.1
  · rw [if_pos hne] at hu
    cases hu
    refine isEmpty_eq_false_iff.mpr ⟨number, Concordance.ascending entry.2, ?_⟩
    exact (SortedMap.get?_insert _ _ _ _).trans (if_pos rfl)
  · rw [if_neg hne] at hu
    exact h u list hu

theorem TrimPostings.foldl_enterPosting {postings : SortedMap Term Postings}
    (h : TrimPostings postings) (number : Nat) (entries : List (Term × List Nat)) :
    TrimPostings (entries.foldl (Snapshot.enterPosting number) postings) := by
  induction entries generalizing postings with
  | nil => exact h
  | cons entry rest ih => exact ih (h.enterPosting number entry)

/-! ## Frequencies -/

/-- The documents of a term, ascending. -/
def holders (postings : SortedMap Term Postings) (t : Term) : List Nat :=
  (postings.getD t ∅).byNumber.keys

theorem mem_holders {postings : SortedMap Term Postings} {t : Term} {number : Nat} :
    number ∈ holders postings t ↔ ∃ positions, positionsOf? postings t number = some positions := by
  simp only [positionsOf?_eq_getD]
  exact SortedMap.mem_keys

/-- The frequency of a term is the number of its documents. -/
theorem documentFrequency_eq_length (s : Snapshot) (t : Term) :
    s.documentFrequency t = (holders s.postings t).length := by
  unfold documentFrequency holders SortedMap.getD SortedMap.keys
  rw [List.length_map]
  cases s.postings.get? t <;> rfl

/-- Posting lists that have the same documents for a term give it the same frequency. -/
theorem holders_congr {p q : SortedMap Term Postings} {t : Term}
    (h : ∀ number, (positionsOf? p t number).isSome = (positionsOf? q t number).isSome) :
    holders p t = holders q t := by
  refine eq_of_ascending (SortedMap.keys_ascend _) (SortedMap.keys_ascend _) fun number => ?_
  rw [mem_holders, mem_holders, ← Option.isSome_iff_exists, ← Option.isSome_iff_exists, h number]

end Concordance.Snapshot
