import Concordance.Proofs.Catalog.Encoding
import Mathlib.Data.List.Induction
import Mathlib.Data.List.Nodup
import Mathlib.Data.List.Perm.Subperm

/-!
# Posting lists that were changed and written

A posting list comes about by inserting and erasing documents. Of a document it holds the positions that
were inserted last, ascending and once each, unless it was erased behind that (`get?_built_iff`).

Ascending words are never more than a count can say (`length_le_of_ascend`), so whatever was inserted, the
list is read back from its bytes (`built_read_back`).
-/

namespace Concordance.Postings

open Wire (Takes word32 word64)

/-- A change of a posting list. -/
inductive Change where
  | insert (number : Nat) (positions : List Nat)
  | erase (number : Nat)

namespace Change

/-- The document that a change is about. -/
def number : Change → Nat
  | insert number _ => number
  | erase number => number

/-- The positions that a change leaves for its document. -/
def positions? : Change → Option (List Nat)
  | insert _ positions => some positions
  | erase _ => none

/-- Documents are words from 1 on, and positions any words. -/
def Fits : Change → Prop
  | insert number positions =>
    (1 ≤ number ∧ number < word32) ∧ ∀ position ∈ positions, position < word32
  | erase number => 1 ≤ number ∧ number < word32

instance : DecidablePred Fits
  | insert number positions =>
    inferInstanceAs (Decidable ((1 ≤ number ∧ number < word32) ∧ ∀ x ∈ positions, x < word32))
  | erase number => inferInstanceAs (Decidable (1 ≤ number ∧ number < word32))

/-- Makes a change. -/
def perform (p : Postings) : Change → Postings
  | insert number positions => p.insert number positions
  | erase number => p.erase number

end Change

/-- The posting list that changes leave behind. -/
def built (changes : List Change) : Postings := changes.foldl Change.perform ∅

/-- Changes insert positions for a document, and none behind that is about the document. -/
def LastInserted (changes : List Change) (number : Nat) (positions : List Nat) : Prop :=
  ∃ before behind, changes = before ++ .insert number positions :: behind ∧
    ∀ change ∈ behind, change.number ≠ number

variable {changes : List Change} {number : Nat} {positions l : List Nat}

/-! ## What changes leave behind -/

/-- A change replaces what is held of its document, and of no other. -/
theorem get?_perform (p : Postings) (change : Change) (number : Nat) :
    (change.perform p).get? number =
      if number = change.number then change.positions?.map ascending else p.get? number := by
  cases change with
  | insert => exact SortedMap.get?_insert _ _ _ _
  | erase => exact SortedMap.get?_erase _ _ _

/-- One more change counts for its document, and for no other. -/
theorem lastInserted_append_singleton (changes : List Change) (change : Change) :
    LastInserted (changes ++ [change]) number positions ↔
      if number = change.number then change.positions? = some positions
      else LastInserted changes number positions := by
  constructor
  · rintro ⟨before, behind, hsplit, hbehind⟩
    rcases List.eq_nil_or_concat behind with rfl | ⟨behind, last, rfl⟩
    · obtain ⟨-, heq⟩ := List.append_inj' hsplit rfl
      cases heq
      exact (if_pos rfl).mpr rfl
    · rw [List.concat_eq_append, ← List.cons_append, ← List.append_assoc] at hsplit
      obtain ⟨hchanges, heq⟩ := List.append_inj' hsplit rfl
      cases heq
      rw [List.concat_eq_append, List.forall_mem_append] at hbehind
      have hother := hbehind.2 change List.mem_cons_self
      rw [if_neg hother.symm]
      exact ⟨before, behind, hchanges, hbehind.1⟩
  · intro h
    split at h
    · next hnumber =>
        refine ⟨changes, [], ?_, nofun⟩
        cases change with
        | insert =>
            cases h
            rw [hnumber]
            rfl
        | erase => cases h
    · next hother =>
        obtain ⟨before, behind, rfl, hbehind⟩ := h
        refine ⟨before, behind ++ [change], by simp, ?_⟩
        rw [List.forall_mem_append]
        exact ⟨hbehind, by simpa using Ne.symm hother⟩

theorem get?_built_iff :
    (built changes).get? number = some l ↔
      ∃ positions, LastInserted changes number positions ∧ l = ascending positions := by
  induction changes using List.reverseRecOn with
  | nil =>
      refine ⟨nofun, ?_⟩
      rintro ⟨positions, ⟨before, behind, hsplit, -⟩, -⟩
      simp at hsplit
  | append_singleton changes change ih =>
      rw [built, List.foldl_append, List.foldl_cons, List.foldl_nil, ← built, get?_perform]
      simp only [lastInserted_append_singleton]
      split
      · rw [Option.map_eq_some_iff]
        exact exists_congr fun _ => and_congr_right fun _ => eq_comm
      · exact ih

/-- What was inserted last fits. -/
theorem LastInserted.fits (h : LastInserted changes number positions)
    (hfits : ∀ change ∈ changes, change.Fits) :
    (1 ≤ number ∧ number < word32) ∧ ∀ position ∈ positions, position < word32 := by
  obtain ⟨before, behind, rfl, -⟩ := h
  exact hfits (.insert number positions) (List.mem_append_right _ List.mem_cons_self)

/-! ## Counts -/

/-- Ascending numbers below a limit are no more than the limit. -/
theorem length_le_of_ascend {n : Nat} (hascend : l.Pairwise (· < ·)) (hless : ∀ x ∈ l, x < n) :
    l.length ≤ n := by
  have hdistinct : l.Nodup := hascend.imp Nat.ne_of_lt
  have hsub : l.Subperm (List.range n) :=
    hdistinct.subperm fun x hx => List.mem_range.mpr (hless x hx)
  exact Nat.le_trans hsub.length_le (Nat.le_of_eq List.length_range)

/-- Whatever changes fit, the counts of what they leave behind are words. -/
theorem takes_built (hfits : ∀ change ∈ changes, change.Fits) :
    Takes decode (built changes).encode (built changes) := by
  have hheld : ∀ e ∈ (built changes).toList, (1 ≤ e.1 ∧ e.1 < word32) ∧
      e.2.Pairwise (· < ·) ∧ ∀ position ∈ e.2, position < word32 := by
    intro e he
    obtain ⟨positions, hlast, hpositions⟩ := get?_built_iff.mp (SortedMap.mem_toList.mp he)
    obtain ⟨hnumber, hwords⟩ := hlast.fits hfits
    rw [hpositions]
    exact ⟨hnumber, ascending_lt positions, fun x hx => hwords x (mem_ascending.mp hx)⟩
  have hword : word32 < word64 := by decide
  apply takes_decode_of_counts
  · exact fun e he => ⟨(hheld e he).1.2, (hheld e he).2.2⟩
  · exact fun e he => (hheld e he).1.1
  · have hcount := length_le_of_ascend (SortedMap.keys_lt (built changes).byNumber) fun x hx => by
      obtain ⟨e, he, rfl⟩ := List.mem_map.mp hx
      exact (hheld e he).1.2
    rw [SortedMap.keys, List.length_map] at hcount
    exact Nat.lt_of_le_of_lt hcount hword
  · intro e he
    exact Nat.lt_of_le_of_lt (length_le_of_ascend (hheld e he).2.1 (hheld e he).2.2) hword

/-- Whatever was inserted and erased, the list holds for each document just the positions that were
inserted last, strictly ascending; and it is read back from its bytes, which are taken off the input
whatever stands behind them. -/
theorem built_read_back (changes : List Change) (h : ∀ change ∈ changes, change.Fits) :
    (∀ number l, (built changes).get? number = some l ↔
      ∃ positions, LastInserted changes number positions ∧
        l.Pairwise (· < ·) ∧ ∀ x, x ∈ l ↔ x ∈ positions) ∧
    ∀ (r : Wire.Reader) (more : List UInt8), r.rest = (built changes).encode ++ more →
      decode r = (.ok (built changes), r.accept (built changes).encode more) := by
  refine ⟨fun number l => ?_, takes_built h⟩
  rw [get?_built_iff]
  exact exists_congr fun _ => and_congr_right fun _ => eq_ascending_iff

/-- The greatest document with the least and the greatest position, one document inserted twice, and one
erased. -/
def extremes : List Change :=
  [.insert 4294967295 [4294967295, 0, 0], .insert 1 [9], .insert 7 [], .insert 1 [5, 2, 5], .erase 7]

theorem built_read_back_extremes :
    (∀ change ∈ extremes, change.Fits) ∧
      (built extremes).toList = [(1, [2, 5]), (4294967295, [0, 4294967295])] ∧
      (built extremes).get? 1 = some [2, 5] ∧
      ∀ (r : Wire.Reader) (more : List UInt8), r.rest = (built extremes).encode ++ more →
        decode r = (.ok (built extremes), r.accept (built extremes).encode more) := by
  have hfits : ∀ change ∈ extremes, change.Fits := by decide
  obtain ⟨hheld, hread⟩ := built_read_back extremes hfits
  refine ⟨hfits, rfl, (hheld 1 [2, 5]).mpr ⟨[5, 2, 5], ?_, by decide, by simp⟩, hread⟩
  exact ⟨[.insert 4294967295 [4294967295, 0, 0], .insert 1 [9], .insert 7 []], [.erase 7], rfl,
    by decide⟩

end Concordance.Postings
