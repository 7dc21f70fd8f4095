import Concordance.Statistics.Message
import Mathlib.Algebra.Order.Ring.Int

/-!
# Records in parts

The messages of a record have its changes in their order, piece by piece, and its change of the
number of documents once (`Message.split_divides`). Parts are numbered in their order, so the
messages of one record are told apart by them.
-/

namespace Concordance

theorem flatten_pieces {α : Type} {size : Nat} (hsize : 1 ≤ size) (count : Nat) (l : List α)
    (h : l.length ≤ count) : (pieces size count l).flatten = l := by
  induction count generalizing l with
  | zero =>
      have hnil : l = [] := List.eq_nil_of_length_eq_zero (by omega)
      subst hnil
      rfl
  | succ count ih =>
      cases l with
      | nil => rfl
      | cons a rest =>
          have hleft : ((a :: rest).drop size).length ≤ count := by
            rw [List.length_drop]
            omega
          have hcons : pieces size (count + 1) (a :: rest) =
              (a :: rest).take size :: pieces size count ((a :: rest).drop size) := rfl
          rw [hcons, List.flatten_cons, ih _ hleft, List.take_append_drop]

theorem length_pieces_le {α : Type} (size count : Nat) (l : List α) :
    (pieces size count l).length ≤ count := by
  induction count generalizing l with
  | zero => exact Nat.le_refl 0
  | succ count ih =>
      rw [pieces]
      split
      · exact Nat.zero_le _
      · exact Nat.succ_le_succ (ih _)

theorem flatten_cut {α : Type} (size : Nat) (l : List α) : (cut size l).flatten = l :=
  flatten_pieces (Nat.le_max_right size 1) l.length l (Nat.le_refl _)

namespace Statistics.Message

/-- The message with one part of the changes of a record. -/
def ofPart (record : Record) (origin : Origin) (encoding : Encoding) (changes : List Change)
    (part : Nat) : Message :=
  ⟨record.timestamp, part, origin, encoding, if part = 0 then record.documents else 0, changes⟩

/-- The messages of a record are those of some parts that its changes are made of. -/
theorem split_eq (record : Record) (origin : Origin) (encoding : Encoding) (maxEntries : Nat) :
    ∃ parts : List (List Change), parts ≠ [] ∧ parts.flatten = record.changes ∧
      parts.length ≤ max 1 record.changes.length ∧
      split record origin encoding maxEntries =
        parts.zipIdx.map fun p => ofPart record origin encoding p.1 p.2 := by
  have hflatten := flatten_cut maxEntries record.changes
  have hlength := length_pieces_le (max maxEntries 1) record.changes.length record.changes
  unfold split
  dsimp only
  split
  · next hnil =>
      rw [hnil] at hflatten
      exact ⟨[[]], nofun, hflatten, Nat.le_max_left _ _, rfl⟩
  · next hsome =>
      exact ⟨cut maxEntries record.changes, hsome, hflatten,
        Nat.le_trans hlength (Nat.le_max_right _ _), rfl⟩

/-- Messages that a record is divided into. -/
structure Divides (record : Record) (messages : List Message) : Prop where
  changes : messages.flatMap (·.changes) = record.changes
  documents : (messages.map (·.documents)).sum = record.documents
  timestamp : ∀ m ∈ messages, m.timestamp = record.timestamp
  numbered : messages.Pairwise fun a b => a.part < b.part
  part : ∀ m ∈ messages, m.part < max 1 record.changes.length

/-- However a record is split, its messages divide it. -/
theorem split_divides (record : Record) (origin : Origin) (encoding : Encoding)
    (maxEntries : Nat) : Divides record (split record origin encoding maxEntries) := by
  obtain ⟨parts, hne, hflatten, hlength, hsplit⟩ :=
    split_eq record origin encoding maxEntries
  rw [hsplit]
  refine ⟨?_, ?_, ?_, ?_, ?_⟩
  · have hchanges : parts.zipIdx.map (fun p => (ofPart record origin encoding p.1 p.2).changes) =
        parts := List.zipIdx_map_fst 0 parts
    rw [List.flatMap_map, List.flatMap_def, hchanges, hflatten]
  · -- only the first part has the number 0
    obtain ⟨first, rest, rfl⟩ := List.exists_cons_of_ne_nil hne
    have hzero : ∀ n ∈ (rest.zipIdx 1).map fun p => (ofPart record origin encoding p.1 p.2).documents,
        n = 0 := by
      intro n hn
      obtain ⟨⟨changes, part⟩, hpart, rfl⟩ := List.mem_map.mp hn
      have hle := (List.mem_zipIdx hpart).1
      exact if_neg (by dsimp only; omega)
    have hothers := congrArg List.sum (List.eq_replicate_of_mem hzero)
    rw [List.sum_replicate_int, Int.mul_zero] at hothers
    rw [List.map_map, List.zipIdx_cons, List.map_cons, List.sum_cons]
    exact (congrArg _ hothers).trans (Int.add_zero _)
  · intro m hm
    obtain ⟨⟨changes, part⟩, -, rfl⟩ := List.mem_map.mp hm
    rfl
  · refine List.pairwise_map.mpr ?_
    have hascend : ((parts.zipIdx).map Prod.snd).Pairwise (· < ·) := by
      rw [List.zipIdx_map_snd]
      exact List.pairwise_lt_range'
    exact List.pairwise_map.mp hascend
  · intro m hm
    obtain ⟨⟨changes, part⟩, hpart, rfl⟩ := List.mem_map.mp hm
    have hlt := (List.mem_zipIdx hpart).2.1
    show part < _
    omega

/-- Messages of a record are told apart by their parts. -/
theorem key_split {record : Record} {origin : Origin} {encoding : Encoding} {maxEntries : Nat}
    {m : Message} (hm : m ∈ split record origin encoding maxEntries) :
    m.key = ⟨record.timestamp, m.part, origin⟩ := by
  obtain ⟨parts, -, -, -, hsplit⟩ := split_eq record origin encoding maxEntries
  rw [hsplit] at hm
  obtain ⟨⟨changes, part⟩, -, rfl⟩ := List.mem_map.mp hm
  rfl

theorem key_splitAll {records : List Record} {origin : Origin} {encoding : Encoding}
    {maxEntries : Nat} {m : Message} (hm : m ∈ splitAll records origin encoding maxEntries) :
    ∃ record ∈ records, m.key = ⟨record.timestamp, m.part, origin⟩ := by
  obtain ⟨record, hrecord, hm⟩ := List.mem_flatMap.mp hm
  exact ⟨record, hrecord, key_split hm⟩

theorem first_key_mem (record : Record) (origin : Origin) (encoding : Encoding) (maxEntries : Nat) :
    ⟨record.timestamp, 0, origin⟩ ∈ (split record origin encoding maxEntries).map key := by
  obtain ⟨parts, hne, -, -, hsplit⟩ := split_eq record origin encoding maxEntries
  obtain ⟨first, rest, rfl⟩ := List.exists_cons_of_ne_nil hne
  rw [hsplit, List.zipIdx_cons, List.map_cons, List.map_cons]
  exact List.mem_cons_self

theorem documents_splitAll (records : List Record) (origin : Origin) (encoding : Encoding)
    (maxEntries : Nat) :
    ((splitAll records origin encoding maxEntries).map (·.documents)).sum =
      (records.map (·.documents)).sum := by
  induction records with
  | nil => rfl
  | cons record rest ih =>
      have hfirst := (split_divides record origin encoding maxEntries).documents
      rw [splitAll, List.flatMap_cons, List.map_append, List.sum_append, hfirst, List.map_cons,
        List.sum_cons]
      exact congrArg _ ih

theorem changes_splitAll (records : List Record) (origin : Origin) (encoding : Encoding)
    (maxEntries : Nat) :
    (splitAll records origin encoding maxEntries).flatMap (·.changes) =
      records.flatMap (·.changes) := by
  rw [splitAll, List.flatMap_assoc]
  exact congrArg (List.flatMap · records)
    (funext fun record => (split_divides record origin encoding maxEntries).changes)

end Statistics.Message

end Concordance
