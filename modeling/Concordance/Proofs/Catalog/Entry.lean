import Concordance.Proofs.Catalog.Access
import Concordance.Proofs.Catalog.Postings
import Concordance.Proofs.Document.Stored
import Concordance.Proofs.Metadata.Migration

/-!
# What a snapshot says about one number

Documents, postings, access lists and metadata are four structures; about one number they say one
thing. `Holds s d entry` is that thing: all four agree that the number `d` carries the document
`entry`, or nothing. `SameAt d s s'` is the frame relation: the four structures say about `d` in
`s'` what they say in `s`. Dropping and entering the data of a number are specified by the two:
`holds_dropData`, `sameAt_dropData`, `holds_enterData`, `sameAt_enterData`.
-/

namespace Concordance

/-- A document as the index holds it: its stored form and its metadata record. -/
structure Entry where
  stored : StoredDocument
  record : List UInt8
  deriving DecidableEq

/-- An entry without a user on its access list. -/
def Entry.withoutUser (user : String) (e : Entry) : Entry :=
  { e with stored := e.stored.withoutUser user }

namespace Snapshot

/-- All structures of a snapshot agree on what a number carries. -/
structure Holds (s : Snapshot) (d : Nat) (entry : Option Entry) : Prop where
  stored : s.documents.get? d = entry.map (·.stored)
  positions : ∀ t, positionsOf? s.postings t d = entry.bind (·.stored.search.get? t)
  sees : ∀ user, s.access.Sees user d ↔ ∃ e, entry = some e ∧ user ∈ e.stored.access
  record : s.metadata.recordOf d = (entry.map (·.record)).getD s.metadata.schema.zeroRecord
  inOrder : ∀ e, entry = some e → e.stored.InOrder

/-- All structures say the same about a number in two snapshots. -/
structure SameAt (d : Nat) (s s' : Snapshot) : Prop where
  stored : s'.documents.get? d = s.documents.get? d
  positions : ∀ t, positionsOf? s'.postings t d = positionsOf? s.postings t d
  sees : ∀ user, s'.access.Sees user d ↔ s.access.Sees user d
  record : s'.metadata.recordOf d = s.metadata.recordOf d

/-- Nothing empty is kept, and records have their width. -/
structure Tidy (s : Snapshot) : Prop where
  postings : TrimPostings s.postings
  access : s.access.Trim
  table : s.metadata.Sound

theorem SameAt.refl (d : Nat) (s : Snapshot) : SameAt d s s :=
  ⟨rfl, fun _ => rfl, fun _ => Iff.rfl, rfl⟩

theorem SameAt.trans {d : Nat} {s s' s'' : Snapshot} (h : SameAt d s s') (h' : SameAt d s' s'') :
    SameAt d s s'' where
  stored := h'.stored.trans h.stored
  positions t := (h'.positions t).trans (h.positions t)
  sees user := (h'.sees user).trans (h.sees user)
  record := h'.record.trans h.record

/-- The four structures alone say what a number carries. -/
theorem SameAt.of_eq {s s' : Snapshot} (hdocuments : s'.documents = s.documents)
    (hpostings : s'.postings = s.postings) (haccess : s'.access = s.access)
    (hmetadata : s'.metadata = s.metadata) (d : Nat) : SameAt d s s' where
  stored := by rw [hdocuments]
  positions t := by rw [hpostings]
  sees user := by rw [haccess]
  record := by rw [hmetadata]

theorem Tidy.of_eq {s s' : Snapshot} (h : s.Tidy) (hpostings : s'.postings = s.postings)
    (haccess : s'.access = s.access) (hmetadata : s'.metadata = s.metadata) : s'.Tidy where
  postings := hpostings ▸ h.postings
  access := haccess ▸ h.access
  table := hmetadata ▸ h.table

/-- What is the same is held alike. -/
theorem SameAt.holds {d : Nat} {s s' : Snapshot} {entry : Option Entry} (h : SameAt d s s')
    (hschema : s'.metadata.schema = s.metadata.schema) (hs : s.Holds d entry) :
    s'.Holds d entry where
  stored := h.stored.trans hs.stored
  positions t := (h.positions t).trans (hs.positions t)
  sees user := (h.sees user).trans (hs.sees user)
  record := by rw [h.record, hs.record, hschema]
  inOrder := hs.inOrder

/-- A number that carries nothing in two snapshots with one schema is the same in both. -/
theorem Holds.sameAt {d : Nat} {s s' : Snapshot} {entry : Option Entry} (h : s.Holds d entry)
    (h' : s'.Holds d entry) (hschema : s'.metadata.schema = s.metadata.schema) : SameAt d s s' where
  stored := h'.stored.trans h.stored.symm
  positions t := (h'.positions t).trans (h.positions t).symm
  sees user := (h'.sees user).trans (h.sees user).symm
  record := by rw [h'.record, h.record, hschema]

variable {s : Snapshot}

/-! ## Dropping the data of a number -/

@[simp] theorem numbering_dropData (s : Snapshot) (d : Nat) :
    (s.dropData d).2.numbering = s.numbering := by
  unfold dropData
  split <;> rfl

@[simp] theorem generation_dropData (s : Snapshot) (d : Nat) :
    (s.dropData d).2.generation = s.generation := by
  unfold dropData
  split <;> rfl

@[simp] theorem timestamp_dropData (s : Snapshot) (d : Nat) :
    (s.dropData d).2.timestamp = s.timestamp := by
  unfold dropData
  split <;> rfl

@[simp] theorem accessControl_dropData (s : Snapshot) (d : Nat) :
    (s.dropData d).2.accessControl = s.accessControl := by
  unfold dropData
  split <;> rfl

@[simp] theorem schema_dropData (s : Snapshot) (d : Nat) :
    (s.dropData d).2.metadata.schema = s.metadata.schema := by
  unfold dropData
  split
  · rfl
  · exact Table.schema_clearRecord _ _

theorem Tidy.dropData (h : s.Tidy) (d : Nat) : (s.dropData d).2.Tidy := by
  unfold Snapshot.dropData
  split
  · exact h
  · exact ⟨h.postings.foldl_erasePosting _ _, h.access.revoke _ _, h.table.clearRecord _⟩

theorem sameAt_dropData (h : s.Tidy) {d x : Nat} (hx : x ≠ d) :
    SameAt x s (s.dropData d).2 := by
  unfold Snapshot.dropData
  split
  · exact .refl x s
  · next stored hget =>
      refine ⟨?_, fun t => ?_, fun user => ?_, ?_⟩
      · exact (SortedMap.get?_erase _ _ _).trans (if_neg hx)
      · exact positionsOf?_foldl_erasePosting.trans (if_neg fun hand => hx hand.1)
      · refine AccessLists.sees_revoke.trans ⟨And.left, fun hs => ⟨hs, fun hand => hx hand.1⟩⟩
      · exact (h.table.recordOf_clearRecord d x).trans (if_neg hx)

/-- Dropping the data of a number leaves nothing of its document. -/
theorem holds_dropData (h : s.Tidy) {d : Nat} {entry : Option Entry} (hd : s.Holds d entry) :
    (s.dropData d).2.Holds d none := by
  unfold Snapshot.dropData
  cases entry with
  | none =>
      rw [hd.stored]
      exact hd
  | some e =>
      have hstored := hd.stored
      rw [Option.map_some] at hstored
      rw [hstored]
      refine ⟨?_, fun t => ?_, fun user => ?_, ?_, nofun⟩
      · exact (SortedMap.get?_erase _ _ _).trans (if_pos rfl)
      · rw [positionsOf?_foldl_erasePosting]
        by_cases ht : t ∈ e.stored.search.keys
        · rw [if_pos ⟨rfl, ht⟩]
          rfl
        · -- no other list has the document
          rw [if_neg fun hand => ht hand.2, hd.positions, Option.bind_some, Option.bind_none]
          exact SortedMap.not_mem_keys.mp ht
      · show (s.access.revoke d e.stored.access).Sees user d ↔ _
        rw [AccessLists.sees_revoke, hd.sees]
        constructor
        · rintro ⟨⟨e', he', huser⟩, hne⟩
          cases he'
          exact absurd ⟨rfl, huser⟩ hne
        · rintro ⟨e', he', -⟩
          cases he'
      · show (s.metadata.clearRecord d).recordOf d = _
        rw [h.table.recordOf_clearRecord, if_pos rfl, Option.map_none, Option.getD_none,
          Table.schema_clearRecord]

/-- The terms that dropping a number answers are those of its document. -/
theorem dropData_fst {d : Nat} {entry : Option Entry} (hd : s.Holds d entry) :
    (s.dropData d).1 = (entry.map (·.stored.search.keys)).getD [] := by
  unfold dropData
  cases entry with
  | none =>
      rw [hd.stored]
      rfl
  | some e =>
      rw [hd.stored]
      rfl

/-- Where nothing is, nothing is dropped. -/
theorem dropData_of_holds_none {d : Nat} (hd : s.Holds d none) : s.dropData d = ([], s) := by
  unfold dropData
  rw [hd.stored]
  rfl

/-! ## Entering the data of a number -/

theorem Tidy.enterData (h : s.Tidy) (d : Nat) {record : List UInt8} (stored : StoredDocument)
    (hrecord : record.length = s.metadata.schema.recordSize) :
    (s.enterData d record stored).Tidy :=
  ⟨h.postings.foldl_enterPosting _ _, h.access.grant _ _, h.table.setRecord _ hrecord⟩

theorem sameAt_enterData (h : s.Tidy) {d x : Nat} (hd : d ≠ 0) (hx : x ≠ d)
    {record : List UInt8} (stored : StoredDocument)
    (hrecord : record.length = s.metadata.schema.recordSize) :
    SameAt x s (s.enterData d record stored) where
  stored := (SortedMap.get?_insert _ _ _ _).trans (if_neg hx)
  positions _ := positionsOf?_foldl_enterPosting.trans (if_neg hx)
  sees _ := AccessLists.sees_grant.trans ⟨fun hs => hs.resolve_right fun hand => hx hand.1, .inl⟩
  record := (h.table.recordOf_setRecord hd hrecord x).trans (if_neg hx)

/-- Entering a document where nothing is: all structures agree on it. -/
theorem holds_enterData (h : s.Tidy) {d : Nat} (hd : d ≠ 0) (hnone : s.Holds d none)
    {record : List UInt8} {stored : StoredDocument} (hstored : stored.InOrder)
    (hrecord : record.length = s.metadata.schema.recordSize) :
    (s.enterData d record stored).Holds d (some ⟨stored, record⟩) where
  stored := (SortedMap.get?_insert _ _ _ _).trans (if_pos rfl)
  positions t := by
    rw [show (s.enterData d record stored).postings =
      stored.search.toList.foldl (enterPosting d) s.postings from rfl,
      positionsOf?_foldl_enterPosting, if_pos rfl, hnone.positions, Option.bind_none, Option.or_none,
      Option.bind_some]
    cases hget : stored.search.get? t with
    | none => rfl
    | some positions =>
        -- stored positions ascend, so entering them does not reorder them
        exact congrArg some (ascending_eq_self (hstored.search t positions hget))
  sees user := by
    rw [show (s.enterData d record stored).access = s.access.grant d stored.access from rfl,
      AccessLists.sees_grant, hnone.sees]
    constructor
    · rintro (⟨e, he, -⟩ | ⟨-, huser⟩)
      · cases he
      · exact ⟨_, rfl, huser⟩
    · rintro ⟨e, he, huser⟩
      cases he
      exact .inr ⟨rfl, huser⟩
  record := (h.table.recordOf_setRecord hd hrecord d).trans (if_pos rfl)
  inOrder e he := by
    cases he
    exact hstored

end Snapshot

end Concordance
