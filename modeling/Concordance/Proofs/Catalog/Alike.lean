import Concordance.Proofs.Store.Execution

/-!
# Snapshots that read alike

Two snapshots are `Alike` when they hold the same: the same identifiers under the same numbers, the
same documents and records, and the same schema. They may differ in the numbers that wait to be used
again and in the rows of zeros that their tables have written out. `Twin` snapshots are alike and of
one generation and timestamp; no reader can tell them apart.

Alike snapshots that are sound have the same posting lists and access lists (`Alike.postings_eq`,
`Alike.access_eq`), and what an operation does to one it does to the other (`Alike.apply`).
-/

namespace Concordance.Snapshot

/-- Two snapshots that hold the same. -/
structure Alike (s t : Snapshot) : Prop where
  accessControl : t.accessControl = s.accessControl
  numbers : t.numbering.numbers = s.numbering.numbers
  ids : t.numbering.ids = s.numbering.ids
  next : t.numbering.next = s.numbering.next
  schema : t.metadata.schema = s.metadata.schema
  entries : ∀ d, t.entryAt? d = s.entryAt? d

/-- Two snapshots that no reader can tell apart. -/
structure Twin (s t : Snapshot) : Prop extends s.Alike t where
  generation : t.generation = s.generation
  timestamp : t.timestamp = s.timestamp

variable {s s' t t' : Snapshot} {touched touched' : List Term}

theorem Alike.refl (s : Snapshot) : s.Alike s :=
  ⟨rfl, rfl, rfl, rfl, rfl, fun _ => rfl⟩

theorem Alike.trans {u : Snapshot} (h : s.Alike t) (h' : t.Alike u) : s.Alike u where
  accessControl := h'.accessControl.trans h.accessControl
  numbers := h'.numbers.trans h.numbers
  ids := h'.ids.trans h.ids
  next := h'.next.trans h.next
  schema := h'.schema.trans h.schema
  entries d := (h'.entries d).trans (h.entries d)

theorem Twin.refl (s : Snapshot) : s.Twin s :=
  ⟨.refl s, rfl, rfl⟩

theorem Twin.trans {u : Snapshot} (h : s.Twin t) (h' : t.Twin u) : s.Twin u :=
  ⟨h.toAlike.trans h'.toAlike, h'.generation.trans h.generation, h'.timestamp.trans h.timestamp⟩

theorem Alike.number?_eq (h : s.Alike t) (id : String) : t.number? id = s.number? id := by
  rw [number?, number?, Numbering.number?, Numbering.number?, h.numbers]

theorem Alike.id?_eq (h : s.Alike t) (d : Nat) : t.id? d = s.id? d := by
  rw [id?, id?, Numbering.id?, Numbering.id?, h.ids]

theorem Alike.size_eq (h : s.Alike t) : t.size = s.size := by
  rw [size, size, h.numbers]

theorem Alike.maxNumber_eq (h : s.Alike t) : t.maxNumber = s.maxNumber := by
  rw [maxNumber, maxNumber, Numbering.maxNumber, Numbering.maxNumber, h.next]

/-! ## What alike snapshots have in common -/

theorem Alike.holds (h : s.Alike t) (ht : t.Sound) (d : Nat) : t.Holds d (s.entryAt? d) := by
  rw [← h.entries d]
  exact ht.holds d

theorem Alike.sameAt (h : s.Alike t) (hs : s.Sound) (ht : t.Sound) (d : Nat) : SameAt d s t :=
  (hs.holds d).sameAt (h.holds ht d) h.schema

theorem Alike.documents_eq (h : s.Alike t) (hs : s.Sound) (ht : t.Sound) :
    t.documents = s.documents :=
  SortedMap.ext_get? fun d => (h.sameAt hs ht d).stored

theorem Alike.recordOf_eq (h : s.Alike t) (hs : s.Sound) (ht : t.Sound) (d : Nat) :
    t.metadata.recordOf d = s.metadata.recordOf d :=
  (h.sameAt hs ht d).record

theorem Alike.postings_eq (h : s.Alike t) (hs : s.Sound) (ht : t.Sound) :
    t.postings = s.postings :=
  ht.tidy.postings.ext hs.tidy.postings fun term d => (h.sameAt hs ht d).positions term

theorem Alike.access_eq (h : s.Alike t) (hs : s.Sound) (ht : t.Sound) : t.access = s.access :=
  ht.tidy.access.ext hs.tidy.access fun user d => (h.sameAt hs ht d).sees user

theorem Alike.unclaimed (h : s.Alike t) {op : Operation} (hop : s.Unclaimed op) :
    t.Unclaimed op := by
  cases op with
  | insert number id doc =>
      obtain ⟨hnumber, hfree⟩ := hop
      refine ⟨hnumber, ?_⟩
      intro x hx
      rw [h.id?_eq] at hx
      exact hfree x hx
  | _ => trivial

/-! ## Operations on alike snapshots -/

/-- Changes of one number to the same entry keep snapshots alike. -/
theorem entries_of_sameAt (h : s.Alike t) {number : Nat} {entry : Option Entry}
    (hs' : s'.Holds number entry) (ht' : t'.Holds number entry)
    (hs : ∀ x, x ≠ number → SameAt x s s') (ht : ∀ x, x ≠ number → SameAt x t t') (d : Nat) :
    t'.entryAt? d = s'.entryAt? d := by
  by_cases hd : d = number
  · subst hd
    rw [hs'.entryAt?_eq, ht'.entryAt?_eq]
  · rw [(hs d hd).entryAt?_eq, (ht d hd).entryAt?_eq, h.entries]

theorem Alike.insert (h : s.Alike t) (hs : s.Sound) (ht : t.Sound) {number : Nat} {id : String}
    {doc : Document} (hop : s.Unclaimed (.insert number id doc))
    (happly : s.insert number id doc = .ok (touched, s')) :
    ∃ touched' t', t.insert number id doc = .ok (touched', t') ∧ s'.Alike t' := by
  obtain ⟨hnumber, hfree⟩ := hop
  obtain ⟨-, hfree'⟩ := h.unclaimed (show s.Unclaimed (.insert number id doc) from ⟨hnumber, hfree⟩)
  obtain ⟨hmapped, record, hrecord, -, -⟩ := (insert_eq_ok hs hfree).mp happly
  have hmapped' : ∀ e, t.number? id = some e → e = number := by
    intro e he
    rw [h.number?_eq] at he
    exact hmapped e he
  have hrecord' : t.metadata.schema.buildRecord doc = .ok record := by rw [h.schema, hrecord]
  obtain ⟨touched', t', happly'⟩ : ∃ touched' t', t.insert number id doc = .ok (touched', t') :=
    ⟨_, _, (insert_eq_ok ht hfree').mpr ⟨hmapped', record, hrecord', rfl, rfl⟩⟩
  refine ⟨touched', t', happly', ?_⟩
  obtain ⟨-, -, hhead⟩ := head_of_apply hs
    (show s.Unclaimed (.insert number id doc) from ⟨hnumber, hfree⟩) happly
  obtain ⟨-, -, hhead'⟩ := head_of_apply ht
    (show t.Unclaimed (.insert number id doc) from ⟨hnumber, hfree'⟩) happly'
  obtain ⟨r, hr, hholds⟩ := holds_insert hs hnumber hfree happly
  obtain ⟨r', hr', hholds'⟩ := holds_insert ht hnumber hfree' happly'
  -- both records are built from one document for one schema
  rw [hrecord] at hr
  rw [hrecord'] at hr'
  cases hr
  cases hr'
  rw [h.accessControl] at hholds'
  have hnumbering : s'.numbering = s.numbering.assign id number :=
    numbering_of_apply hs (show s.Unclaimed (.insert number id doc) from ⟨hnumber, hfree⟩) happly
  have hnumbering' : t'.numbering = t.numbering.assign id number :=
    numbering_of_apply ht (show t.Unclaimed (.insert number id doc) from ⟨hnumber, hfree'⟩) happly'
  constructor
  · rw [hhead', hhead, h.accessControl]
  · rw [hnumbering, hnumbering']
    show t.numbering.numbers.insert id number = s.numbering.numbers.insert id number
    rw [h.numbers]
  · rw [hnumbering, hnumbering']
    show t.numbering.ids.insert number id = s.numbering.ids.insert number id
    rw [h.ids]
  · rw [hnumbering, hnumbering']
    show max t.numbering.next (number + 1) = max s.numbering.next (number + 1)
    rw [h.next]
  · rw [schema_insert happly', schema_insert happly, h.schema]
  · exact entries_of_sameAt h hholds hholds' (fun x hx => sameAt_insert hs hnumber hfree happly hx)
      fun x hx => sameAt_insert ht hnumber hfree' happly' hx

theorem Alike.delete (h : s.Alike t) (hs : s.Sound) (ht : t.Sound) {id : String}
    (happly : s.delete id = .ok (touched, s')) :
    ∃ touched' t', t.delete id = .ok (touched', t') ∧ s'.Alike t' := by
  obtain ⟨d, hrel⟩ : ∃ d, s.numbering.release id s.generation = some (d, s'.numbering) :=
    numbering_of_apply hs (show s.Unclaimed (.delete id) from trivial) happly
  obtain ⟨hnumber, hn, hi, -, -, hnext⟩ := Numbering.release_eq_some hrel
  have hnumber' : t.number? id = some d := (h.number?_eq id).trans hnumber
  obtain ⟨touched', t', happly'⟩ : ∃ touched' t', t.delete id = .ok (touched', t') := by
    obtain ⟨numbering, hreleased⟩ :
        ∃ numbering, t.numbering.release id t.generation = some (d, numbering) := by
      unfold Numbering.release
      rw [show t.numbering.number? id = some d from hnumber']
      exact ⟨_, rfl⟩
    exact ⟨_, _, delete_eq_ok.mpr ⟨d, numbering, hreleased, rfl, rfl⟩⟩
  obtain ⟨d', hrel'⟩ : ∃ d, t.numbering.release id t.generation = some (d, t'.numbering) :=
    numbering_of_apply ht (show t.Unclaimed (.delete id) from trivial) happly'
  obtain ⟨hd', hn', hi', -, -, hnext'⟩ := Numbering.release_eq_some hrel'
  cases Option.some.inj (hnumber'.symm.trans hd')
  obtain ⟨-, -, hhead⟩ := head_of_apply hs (show s.Unclaimed (.delete id) from trivial) happly
  obtain ⟨-, -, hhead'⟩ := head_of_apply ht (show t.Unclaimed (.delete id) from trivial) happly'
  refine ⟨touched', t', happly', ?_⟩
  constructor
  · rw [hhead', hhead, h.accessControl]
  · -- maps with the same lookups are equal
    apply SortedMap.ext_get?
    intro x
    have hx : t.numbering.number? x = s.numbering.number? x := h.number?_eq x
    have hleft := hn x
    have hright := hn' x
    rw [hx, ← hleft] at hright
    exact hright
  · apply SortedMap.ext_get?
    intro x
    have hx : t.numbering.id? x = s.numbering.id? x := h.id?_eq x
    have hleft := hi x
    have hright := hi' x
    rw [hx, ← hleft] at hright
    exact hright
  · exact hnext'.trans (h.next.trans hnext.symm)
  · rw [schema_delete happly', schema_delete happly, h.schema]
  · exact entries_of_sameAt h (holds_delete hs hnumber happly) (holds_delete ht hnumber' happly')
      (fun x hx => sameAt_delete hs hnumber happly hx)
      fun x hx => sameAt_delete ht hnumber' happly' hx

theorem Alike.deleteUser (h : s.Alike t) (hs : s.Sound) (ht : t.Sound) (user : String) :
    (s.deleteUser user).Alike (t.deleteUser user) := by
  refine ⟨h.accessControl, h.numbers, h.ids, h.next, h.schema, ?_⟩
  intro d
  rw [(holds_deleteUser user (hs.holds d)).entryAt?_eq,
    (holds_deleteUser user (h.holds ht d)).entryAt?_eq]

theorem Alike.define (h : s.Alike t) (hs : s.Sound) (ht : t.Sound) (hsize : s.size = 0)
    (schema : Schema) :
    ({ s with metadata := .empty schema } : Snapshot).Alike { t with metadata := .empty schema } := by
  refine ⟨h.accessControl, h.numbers, h.ids, h.next, rfl, ?_⟩
  intro d
  have hnone := hs.holds_none (hs.id?_of_size_eq_zero hsize d)
  have hnone' := ht.holds_none (ht.id?_of_size_eq_zero (h.size_eq.trans hsize) d)
  rw [(holds_define schema hnone).entryAt?_eq, (holds_define schema hnone').entryAt?_eq]

theorem Alike.alter (h : s.Alike t) (hs : s.Sound) (ht : t.Sound) {alterations : List Alteration}
    {table : Table} (halter : s.metadata.alter alterations s.maxNumber = .ok table) :
    ∃ table', t.metadata.alter alterations t.maxNumber = .ok table' ∧
      ({ s with metadata := table } : Snapshot).Alike { t with metadata := table' } := by
  obtain ⟨layout, new, htarget, hconvert⟩ := Table.alter_eq_ok_iff.mp ⟨table, halter⟩
  have halter' : ∃ table', t.metadata.alter alterations t.maxNumber = .ok table' := by
    refine Table.alter_eq_ok_iff.mpr ⟨layout, new, by rw [h.schema, htarget], ?_⟩
    intro d hd
    rw [h.maxNumber_eq] at hd
    rw [h.schema, h.recordOf_eq hs ht]
    exact hconvert d hd
  obtain ⟨table', halter'⟩ := halter'
  refine ⟨table', halter', h.accessControl, h.numbers, h.ids, h.next, ?_, ?_⟩
  · obtain ⟨l, n, hn, hschema, -⟩ := holds_alter hs halter
    obtain ⟨l', n', hn', hschema', -⟩ := holds_alter ht halter'
    rw [h.schema, hn] at hn'
    cases hn'
    show table'.schema = table.schema
    rw [hschema', hschema]
  · intro d
    obtain ⟨l, n, hn, -, -, hholds⟩ := holds_alter hs halter
    obtain ⟨l', n', hn', -, -, hholds'⟩ := holds_alter ht halter'
    obtain ⟨hconv, hnew⟩ := hholds d _ (hs.holds d)
    obtain ⟨hconv', hnew'⟩ := hholds' d _ (h.holds ht d)
    rw [h.schema, hn] at hn'
    cases hn'
    rw [hnew.entryAt?_eq, hnew'.entryAt?_eq]
    cases hentry : s.entryAt? d with
    | none => rfl
    | some e =>
        have hleft := hconv e hentry
        have hright := hconv' e hentry
        rw [h.schema, hleft] at hright
        simp only [Option.map_some]
        rw [Except.ok.inj hright]

/-- What an operation does to a snapshot it does to every snapshot alike. -/
theorem Alike.apply (h : s.Alike t) (hs : s.Sound) (ht : t.Sound) {op : Operation}
    (hop : s.Unclaimed op) (happly : s.apply op = .ok (touched, s')) :
    ∃ touched' t', t.apply op = .ok (touched', t') ∧ s'.Alike t' ∧ t'.Sound := by
  have hsim : ∃ touched' t', t.apply op = .ok (touched', t') ∧ s'.Alike t' := by
    cases op with
    | insert number id doc => exact h.insert hs ht hop happly
    | delete id => exact h.delete hs ht happly
    | deleteUser user =>
        cases happly
        exact ⟨_, _, rfl, h.deleteUser hs ht user⟩
    | define schema =>
        rw [Snapshot.apply] at happly ⊢
        split at happly
        · next hsize =>
            cases happly
            rw [if_pos (h.size_eq.trans hsize)]
            exact ⟨_, _, rfl, h.define hs ht hsize schema⟩
        · cases happly
    | alter alterations =>
        obtain ⟨table, htable, hs'⟩ := Fallible.bind_eq_ok.mp happly
        cases hs'
        obtain ⟨table', htable', halike⟩ := h.alter hs ht (Fallible.mapError_eq_ok.mp htable)
        exact ⟨_, _, Fallible.bind_eq_ok.mpr ⟨table', Fallible.mapError_eq_ok.mpr htable', rfl⟩,
          halike⟩
  obtain ⟨touched', t', happly', halike⟩ := hsim
  exact ⟨touched', t', happly', halike, ht.apply (h.unclaimed hop) happly'⟩

end Concordance.Snapshot
