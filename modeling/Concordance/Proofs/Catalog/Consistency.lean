import Concordance.Proofs.Catalog.Soundness

/-!
# What the structures of a snapshot have in common

The structures of every snapshot that operations lead to from an empty one agree with each other
(`Consistent`): identifiers and numbers, stored documents, posting lists, access lists and metadata.
An operation answers every term whose frequency it changes (`Sound.mem_touched`).
-/

namespace Concordance.Snapshot

variable {s s' : Snapshot} {touched : List Term}

/-! ## Touched terms -/

/-- Numbers that say the same about a term in two snapshots leave it its frequency. -/
theorem documentFrequency_congr {t : Term}
    (h : ∀ d, positionsOf? s'.postings t d = positionsOf? s.postings t d) :
    s'.documentFrequency t = s.documentFrequency t := by
  rw [documentFrequency_eq_length, documentFrequency_eq_length,
    holders_congr fun d => congrArg Option.isSome (h d)]

/-- A term that a document does not have. -/
theorem Holds.positionsOf?_eq_none {d : Nat} {entry : Option Entry} (h : s.Holds d entry) {t : Term}
    (ht : t ∉ (entry.map (·.stored.search.keys)).getD []) : positionsOf? s.postings t d = none := by
  rw [h.positions]
  cases entry with
  | none => rfl
  | some e => exact SortedMap.not_mem_keys.mp ht

/-- An operation answers every term whose frequency it changes. -/
theorem Sound.mem_touched (h : s.Sound) {op : Operation} (hop : s.Unclaimed op)
    (happly : s.apply op = .ok (touched, s')) {t : Term}
    (ht : s'.documentFrequency t ≠ s.documentFrequency t) : t ∈ touched := by
  refine Classical.byContradiction fun hnot => ht (documentFrequency_congr fun d => ?_)
  cases op with
  | insert number id doc =>
      obtain ⟨hnumber, hfree⟩ := hop
      by_cases hd : d = number
      · subst hd
        -- neither the old nor the new document of the number has the term
        obtain ⟨-, record, -, htouched, -⟩ := (insert_eq_ok h hfree).mp happly
        obtain ⟨record, -, hnew⟩ := holds_insert h hnumber hfree happly
        rw [htouched, dropData_fst (h.holds d), List.mem_append, not_or] at hnot
        rw [(h.holds d).positionsOf?_eq_none hnot.1, hnew.positionsOf?_eq_none hnot.2]
      · exact (sameAt_insert h hnumber hfree happly hd).positions t
  | delete id =>
      obtain ⟨number, numbering, hrel, htouched, -⟩ := delete_eq_ok.mp happly
      have hnumber := (Numbering.release_eq_some hrel).1
      by_cases hd : d = number
      · subst hd
        rw [htouched, dropData_fst (h.holds d)] at hnot
        rw [(h.holds d).positionsOf?_eq_none hnot, (holds_delete h hnumber happly).positions]
        rfl
      · exact (sameAt_delete h hnumber happly hd).positions t
  | deleteUser user =>
      cases happly
      rfl
  | define schema =>
      rw [Snapshot.apply] at happly
      split at happly <;> cases happly
      rfl
  | alter alterations =>
      obtain ⟨table, -, hs'⟩ := Fallible.bind_eq_ok.mp happly
      cases hs'
      rfl

/-! ## Snapshots that operations lead to -/

/-- An operation gives a number from 1 on below the greatest one of 32 bits, and takes none from
another identifier. -/
def Admissible (s : Snapshot) : Operation → Prop
  | .insert number id _ =>
    1 ≤ number ∧ number < Wire.maxWord32 ∧ ∀ x, s.id? number = some x → x = id
  | _ => True

theorem Admissible.unclaimed {op : Operation} (h : s.Admissible op) : s.Unclaimed op := by
  cases op with
  | insert number id doc => exact ⟨Nat.pos_iff_ne_zero.mp h.1, h.2.2⟩
  | _ => trivial

/-- A snapshot that admissible operations lead to from an empty one. -/
inductive Reached : Snapshot → Prop
  | empty (schema : Schema) (accessControl : Bool) : Reached (empty schema accessControl)
  | apply {s s' : Snapshot} {op : Operation} {touched : List Term} :
    Reached s → s.Admissible op → s.apply op = .ok (touched, s') → Reached s'

theorem Reached.sound (h : Reached s) : s.Sound := by
  induction h with
  | empty schema accessControl => exact sound_empty schema accessControl
  | apply _ hop happly ih => exact ih.apply hop.unclaimed happly

/-- The documents stored with a term. -/
def storedWith (s : Snapshot) (t : Term) : SortedMap Nat StoredDocument :=
  s.documents.filter fun _ stored => stored.search.contains t

theorem Sound.documentFrequency_eq (h : s.Sound) (t : Term) :
    s.documentFrequency t = (s.storedWith t).size := by
  have hkeys : holders s.postings t = (s.storedWith t).keys := by
    refine eq_of_ascending (SortedMap.keys_ascend _) (SortedMap.keys_ascend _) fun d => ?_
    have hd := h.holds d
    rw [mem_holders, hd.positions, SortedMap.mem_keys, storedWith, SortedMap.get?_filter,
      hd.stored]
    cases s.entryAt? d with
    | none => simp
    | some e =>
        cases hget : e.stored.search.get? t <;>
          simp [SortedMap.contains, hget, Option.filter]
  rw [documentFrequency_eq_length, hkeys, SortedMap.keys, List.length_map]
  rfl

/-- What holds of the structures of a snapshot together. -/
structure Consistent (s : Snapshot) : Prop where
  /-- The numbers of stored documents are the mapped numbers, and each stored identifier is the
  mapped one. -/
  stored : ∀ d, s.id? d = (s.documents.get? d).map (·.id)
  /-- Identifiers and numbers are mapped to each other. -/
  mapped : ∀ id d, s.number? id = some d ↔ s.id? d = some id
  /-- The posting list of a term has the positions that the stored documents have. -/
  posting : ∀ t d, (s.postings.get? t).bind (·.get? d) =
    (s.documents.get? d).bind (·.search.get? t)
  ascending : ∀ t list d positions, s.postings.get? t = some list → list.get? d = some positions →
    positions.Pairwise (· < ·)
  no_empty_list : ∀ t list, s.postings.get? t = some list → list.isEmpty = false
  frequency : ∀ t, s.documentFrequency t = (s.storedWith t).size
  /-- The set of a user has the documents that list the user. -/
  readable : ∀ user d, d ∈ (s.access.byUser.getD user ∅).keys ↔
    ∃ stored, s.documents.get? d = some stored ∧ user ∈ stored.access
  no_empty_set : ∀ user documents, s.access.byUser.get? user = some documents →
    documents.isEmpty = false
  /-- Every metadata column of a number that is not mapped reads zero. -/
  zero : ∀ d, s.id? d = none → ∀ index, (s.metadata.get d index).IsZero

theorem Sound.consistent (h : s.Sound) : s.Consistent where
  stored d := by
    rw [h.id, (h.holds d).stored]
    cases s.entryAt? d <;> rfl
  mapped := h.numbering.inverse
  posting t d := by
    rw [show (s.postings.get? t).bind (·.get? d) = positionsOf? s.postings t d from rfl,
      (h.holds d).positions, (h.holds d).stored]
    cases s.entryAt? d <;> rfl
  ascending t list d positions hlist hpositions := by
    have hget : positionsOf? s.postings t d = some positions := by
      rw [positionsOf?, hlist, Option.bind_some, hpositions]
    rw [(h.holds d).positions] at hget
    obtain ⟨e, he, hsearch⟩ := Option.bind_eq_some_iff.mp hget
    refine (((h.holds d).inOrder e he).search t positions hsearch).imp fun hlt => ?_
    exact Nat.compare_eq_lt.mp hlt
  no_empty_list := h.tidy.postings
  frequency := h.documentFrequency_eq
  readable user d := by
    have hd := h.holds d
    rw [SortedMap.mem_keys, hd.stored]
    have hsees := hd.sees user
    rw [AccessLists.sees_iff_getD] at hsees
    refine Iff.trans ?_ (hsees.trans ?_)
    · constructor
      · rintro ⟨_, hu⟩
        exact hu
      · intro hu
        exact ⟨(), hu⟩
    · cases s.entryAt? d <;> simp
  no_empty_set user documents hget := by
    obtain ⟨d, hd⟩ := h.tidy.access user documents hget
    exact SortedMap.not_isEmpty_iff.mpr ⟨d, (), hd⟩
  zero d hd index := by
    rw [Table.get_eq_decode, (h.holds_none hd).record]
    exact Schema.isZero_decode_zeroRecord _ index

theorem Sound.one_le_of_stored (h : s.Sound) {d : Nat} {stored : StoredDocument}
    (hd : s.documents.get? d = some stored) : 1 ≤ d := by
  have hid := h.consistent.stored d
  rw [hd] at hid
  exact (h.numbering.live_range d ⟨stored.id, hid⟩).1

/-- In every snapshot that operations lead to the structures are consistent, and every further
operation answers the terms whose frequency it changes. -/
theorem structures_agree_of_reached (h : Reached s) :
    s.Consistent ∧ ∀ op touched s', s.Admissible op → s.apply op = .ok (touched, s') →
      ∀ t, s'.documentFrequency t ≠ s.documentFrequency t → t ∈ touched :=
  ⟨h.sound.consistent, fun _ _ _ hop happly _ ht => h.sound.mem_touched hop.unclaimed happly ht⟩

/-- The storage of one document that one user may read. -/
theorem structures_agree_one_document :
    ∃ s : Snapshot, Reached s ∧ s.size = 1 ∧ s.Consistent := by
  let document : Document :=
    { search := [⟨"word", "x", 2⟩, ⟨"word", "x", 1⟩], access := ["u"] }
  have hop : (empty .empty true).Admissible (.insert 3 "a" document) :=
    ⟨by decide, by decide, nofun⟩
  have hreached := Reached.apply (.empty .empty true) hop rfl
  exact ⟨_, hreached, rfl, (structures_agree_of_reached hreached).1⟩

end Concordance.Snapshot
