import Concordance.Proofs.Catalog.Entry
import Concordance.Proofs.Catalog.Numbering

/-!
# Sound snapshots

A snapshot is `Sound` when its numbering is sane, its four data structures agree on every number,
and a number carries a document exactly when it is mapped to the identifier of that document. Every
operation that does not give a number to a second identifier keeps snapshots sound; the theorems
`holds_insert`, `holds_delete`, `holds_deleteUser`, `holds_define` and `holds_alter` say what each
operation makes of each number.
-/

namespace Concordance.Snapshot

/-- What the structures have for a number. -/
def entryAt? (s : Snapshot) (d : Nat) : Option Entry :=
  (s.documents.get? d).map fun stored => ⟨stored, s.metadata.recordOf d⟩

theorem Holds.entryAt?_eq {s : Snapshot} {d : Nat} {entry : Option Entry} (h : s.Holds d entry) :
    s.entryAt? d = entry := by
  unfold entryAt?
  rw [h.stored, h.record]
  cases entry <;> rfl

theorem SameAt.entryAt?_eq {s s' : Snapshot} {d : Nat} (h : SameAt d s s') :
    s'.entryAt? d = s.entryAt? d := by
  rw [entryAt?, entryAt?, h.stored, h.record]

/-- The data structures agree on every number, with each other and with the numbering. -/
structure Sound (s : Snapshot) : Prop where
  numbering : s.numbering.Sane
  tidy : s.Tidy
  holds : ∀ d, s.Holds d (s.entryAt? d)
  id : ∀ d, s.id? d = (s.entryAt? d).map (·.stored.id)

/-- An operation does not take a number from another identifier. -/
def Unclaimed (s : Snapshot) : Operation → Prop
  | .insert number id _ => number ≠ 0 ∧ ∀ x, s.id? number = some x → x = id
  | _ => True

variable {s s' : Snapshot} {touched : List Term}

/-- Soundness from what is held. -/
theorem Sound.intro (hnumbering : s.numbering.Sane) (htidy : s.Tidy)
    (h : ∀ d, ∃ entry, s.Holds d entry ∧ s.id? d = entry.map (·.stored.id)) : s.Sound where
  numbering := hnumbering
  tidy := htidy
  holds d := by
    obtain ⟨entry, hd, -⟩ := h d
    rwa [hd.entryAt?_eq]
  id d := by
    obtain ⟨entry, hd, hid⟩ := h d
    rwa [hd.entryAt?_eq]

/-- Soundness is about the numbering and the four structures only. -/
theorem Sound.of_eq (h : s.Sound) (hnumbering : s'.numbering.Sane)
    (hids : s'.numbering.ids = s.numbering.ids) (hdocuments : s'.documents = s.documents)
    (hpostings : s'.postings = s.postings) (haccess : s'.access = s.access)
    (hmetadata : s'.metadata = s.metadata) : s'.Sound := by
  refine .intro hnumbering (h.tidy.of_eq hpostings haccess hmetadata) ?_
  intro d
  have hsame := SameAt.of_eq hdocuments hpostings haccess hmetadata d
  refine ⟨s.entryAt? d, hsame.holds (congrArg Table.schema hmetadata) (h.holds d), ?_⟩
  rw [← h.id d, id?, Numbering.id?, hids]
  rfl

theorem holds_empty (schema : Schema) (accessControl : Bool) (d : Nat) :
    (empty schema accessControl).Holds d none where
  stored := rfl
  positions _ := rfl
  sees user := ⟨fun h => absurd h (AccessLists.not_sees_empty user d), fun ⟨_, he, _⟩ => by cases he⟩
  record := Table.recordOf_empty schema d
  inOrder := nofun

theorem sound_empty (schema : Schema) (accessControl : Bool) :
    (empty schema accessControl).Sound :=
  .intro .new ⟨trimPostings_empty, AccessLists.trim_empty, Table.sound_empty schema⟩
    fun d => ⟨none, holds_empty schema accessControl d, rfl⟩

/-- Identifiers and numbers are mapped to each other. -/
theorem Sound.mapped (h : s.Sound) {id : String} {d : Nat} :
    s.number? id = some d ↔ s.id? d = some id :=
  h.numbering.inverse id d

/-- A number is mapped exactly when a document is stored under it. -/
theorem Sound.isLive_iff (h : s.Sound) {d : Nat} :
    s.numbering.IsLive d ↔ ∃ e, s.entryAt? d = some e := by
  have hid := h.id d
  rw [id?] at hid
  rw [Numbering.IsLive, hid]
  cases s.entryAt? d <;> simp

theorem Sound.holds_none (h : s.Sound) {d : Nat} (hd : s.id? d = none) : s.Holds d none := by
  have hnone := h.id d
  rw [hd, eq_comm, Option.map_eq_none_iff] at hnone
  exact hnone ▸ h.holds d

/-! ## Insertion -/

/-- What is left between the two halves of an insertion: the old data is gone, the number mapped. -/
def cleared (s : Snapshot) (number : Nat) (id : String) : Snapshot :=
  { (s.dropData number).2 with numbering := s.numbering.assign id number }

/-- Why an insertion succeeds, and what it makes: the old data of the number is dropped, the new
data entered. -/
theorem insert_eq_ok (h : s.Sound) {number : Nat} {id : String} {doc : Document}
    (hfree : ∀ x, s.id? number = some x → x = id) :
    s.insert number id doc = .ok (touched, s') ↔
      (∀ e, s.number? id = some e → e = number) ∧
      ∃ record, s.metadata.schema.buildRecord doc = .ok record ∧
        touched = (s.dropData number).1 ++
          (StoredDocument.ofDocument id doc s.accessControl).search.keys ∧
        s' = (s.cleared number id).enterData number record
          (StoredDocument.ofDocument id doc s.accessControl) := by
  unfold insert
  rw [Fallible.bind_eq_ok]
  simp only [Fallible.mapError_eq_ok]
  cases hid : s.number? id with
  | none =>
      -- the number carries nothing, so there is nothing to drop
      have hunmapped : s.id? number = none := by
        cases hx : s.id? number with
        | none => rfl
        | some x =>
            have hmap := (h.numbering.inverse x number).mpr hx
            rw [hfree x hx] at hmap
            rw [number?, hmap] at hid
            cases hid
      have hdrop := dropData_of_holds_none (h.holds_none hunmapped)
      rw [hdrop]
      constructor
      · rintro ⟨record, hrecord, heq⟩
        cases heq
        exact ⟨nofun, record, hrecord, rfl, by rw [cleared, hdrop]⟩
      · rintro ⟨-, record, hrecord, rfl, rfl⟩
        rw [cleared, hdrop]
        exact ⟨record, hrecord, rfl⟩
  | some existing =>
      by_cases hexisting : existing = number
      · subst hexisting
        constructor
        · rintro ⟨record, hrecord, heq⟩
          simp only [if_true] at heq
          cases heq
          rw [numbering_dropData]
          exact ⟨fun e he => (Option.some.inj he).symm, record, hrecord, rfl, rfl⟩
        · rintro ⟨-, record, hrecord, rfl, rfl⟩
          refine ⟨record, hrecord, ?_⟩
          simp only [if_true, pure_bind, numbering_dropData]
          rfl
      · constructor
        · rintro ⟨record, -, heq⟩
          simp only [if_neg hexisting] at heq
          cases heq
        · rintro ⟨hall, -⟩
          exact absurd (hall existing rfl) hexisting

theorem tidy_cleared (h : s.Tidy) (number : Nat) (id : String) : (s.cleared number id).Tidy :=
  (h.dropData number).of_eq rfl rfl rfl

theorem sameAt_cleared (s : Snapshot) (number x : Nat) (id : String) :
    SameAt x (s.dropData number).2 (s.cleared number id) := by
  refine .of_eq ?_ ?_ ?_ ?_ x <;> rfl

theorem holds_cleared (h : s.Sound) (number : Nat) (id : String) :
    (s.cleared number id).Holds number none :=
  (sameAt_cleared s number number id).holds rfl (holds_dropData h.tidy (h.holds number))

theorem length_record_cleared {number : Nat} {id : String} {doc : Document} {record : List UInt8}
    (h : s.metadata.schema.buildRecord doc = .ok record) :
    record.length = (s.cleared number id).metadata.schema.recordSize := by
  rw [show (s.cleared number id).metadata.schema = (s.dropData number).2.metadata.schema from rfl,
    schema_dropData]
  exact Schema.length_buildRecord h

/-- An insertion changes what is said about its own number only. -/
theorem sameAt_insert (h : s.Sound) {number x : Nat} {id : String} {doc : Document}
    (hnumber : number ≠ 0) (hfree : ∀ x, s.id? number = some x → x = id)
    (hins : s.insert number id doc = .ok (touched, s')) (hx : x ≠ number) : SameAt x s s' := by
  obtain ⟨-, record, hrecord, -, rfl⟩ := (insert_eq_ok h hfree).mp hins
  exact ((sameAt_dropData h.tidy hx).trans (sameAt_cleared s number x id)).trans
    (sameAt_enterData (tidy_cleared h.tidy number id) hnumber hx _ (length_record_cleared hrecord))

/-- The number of an insertion carries the new document. -/
theorem holds_insert (h : s.Sound) {number : Nat} {id : String} {doc : Document}
    (hnumber : number ≠ 0) (hfree : ∀ x, s.id? number = some x → x = id)
    (hins : s.insert number id doc = .ok (touched, s')) :
    ∃ record, s.metadata.schema.buildRecord doc = .ok record ∧
      s'.Holds number (some ⟨StoredDocument.ofDocument id doc s.accessControl, record⟩) := by
  obtain ⟨-, record, hrecord, -, rfl⟩ := (insert_eq_ok h hfree).mp hins
  exact ⟨record, hrecord, holds_enterData (tidy_cleared h.tidy number id) hnumber
    (holds_cleared h number id) (StoredDocument.inOrder_ofDocument id doc _)
    (length_record_cleared hrecord)⟩

/-- An insertion leaves the schema, whatever number it is under. -/
theorem schema_insert {number : Nat} {id : String} {doc : Document}
    (hins : s.insert number id doc = .ok (touched, s')) :
    s'.metadata.schema = s.metadata.schema := by
  obtain ⟨record, -, hrest⟩ := Fallible.bind_eq_ok.mp hins
  split at hrest
  · cases hrest
    exact Table.schema_setRecord _ _ _
  · split at hrest
    · cases hrest
      exact (Table.schema_setRecord _ _ _).trans (schema_dropData _ _)
    · cases hrest

theorem Sound.insert (h : s.Sound) {number : Nat} {id : String} {doc : Document}
    (hnumber : number ≠ 0) (hfree : ∀ x, s.id? number = some x → x = id)
    (hins : s.insert number id doc = .ok (touched, s')) : s'.Sound := by
  obtain ⟨hmapped, record, hrecord, -, hs'⟩ := (insert_eq_ok h hfree).mp hins
  have hids : ∀ x, s'.id? x = if x = number then some id else s.id? x := by
    intro x
    rw [hs']
    exact Numbering.id?_assign _ _ _ _
  refine .intro ?_ ?_ fun x => ?_
  · rw [hs']
    exact h.numbering.assign (Nat.pos_of_ne_zero hnumber) hmapped hfree
  · rw [hs']
    exact (tidy_cleared h.tidy number id).enterData number _ (length_record_cleared hrecord)
  · by_cases hx : x = number
    · subst hx
      obtain ⟨record', -, hholds⟩ := holds_insert h hnumber hfree hins
      exact ⟨_, hholds, by rw [hids, if_pos rfl]; rfl⟩
    · refine ⟨s.entryAt? x, ?_, by rw [hids, if_neg hx, h.id]⟩
      exact (sameAt_insert h hnumber hfree hins hx).holds (schema_insert hins) (h.holds x)

/-! ## Deletion -/

/-- Why a deletion succeeds, and what it makes. -/
theorem delete_eq_ok {id : String} :
    s.delete id = .ok (touched, s') ↔
      ∃ number numbering, s.numbering.release id s.generation = some (number, numbering) ∧
        touched = (s.dropData number).1 ∧ s' = { (s.dropData number).2 with numbering } := by
  unfold delete
  cases s.numbering.release id s.generation with
  | none => simp
  | some p =>
      obtain ⟨number, numbering⟩ := p
      constructor
      · rintro h
        cases h
        exact ⟨number, numbering, rfl, rfl, rfl⟩
      · rintro ⟨number', numbering', heq, rfl, rfl⟩
        cases heq
        rfl

theorem sameAt_delete (h : s.Sound) {id : String} {number x : Nat}
    (hnumber : s.number? id = some number) (hdel : s.delete id = .ok (touched, s'))
    (hx : x ≠ number) : SameAt x s s' := by
  obtain ⟨d, numbering, hrel, -, rfl⟩ := delete_eq_ok.mp hdel
  have hd := (Numbering.release_eq_some hrel).1
  rw [number?, hd] at hnumber
  cases hnumber
  refine (sameAt_dropData h.tidy hx).trans (.of_eq ?_ ?_ ?_ ?_ x) <;> rfl

/-- The number of a deleted document carries nothing. -/
theorem holds_delete (h : s.Sound) {id : String} {number : Nat}
    (hnumber : s.number? id = some number) (hdel : s.delete id = .ok (touched, s')) :
    s'.Holds number none := by
  obtain ⟨d, numbering, hrel, -, rfl⟩ := delete_eq_ok.mp hdel
  have hd := (Numbering.release_eq_some hrel).1
  rw [number?, hd] at hnumber
  cases hnumber
  refine SameAt.holds (.of_eq ?_ ?_ ?_ ?_ number) ?_ (holds_dropData h.tidy (h.holds number)) <;> rfl

theorem schema_delete {id : String} (hdel : s.delete id = .ok (touched, s')) :
    s'.metadata.schema = s.metadata.schema := by
  obtain ⟨d, numbering, -, -, rfl⟩ := delete_eq_ok.mp hdel
  exact schema_dropData s d

theorem Sound.delete (h : s.Sound) {id : String} (hdel : s.delete id = .ok (touched, s')) :
    s'.Sound := by
  have hschema := schema_delete hdel
  obtain ⟨d, numbering, hrel, -, heq⟩ := delete_eq_ok.mp hdel
  obtain ⟨hnumber, -, hids, -, -, -⟩ := Numbering.release_eq_some hrel
  refine .intro ?_ ?_ fun x => ?_
  · rw [heq]
    exact h.numbering.release hrel
  · rw [heq]
    exact (h.tidy.dropData d).of_eq rfl rfl rfl
  · have hid : s'.id? x = if x = d then none else s.id? x := by
      rw [heq]
      exact hids x
    by_cases hx : x = d
    · subst hx
      exact ⟨none, holds_delete h hnumber hdel, by rw [hid, if_pos rfl]; rfl⟩
    · refine ⟨s.entryAt? x, ?_, by rw [hid, if_neg hx, h.id]⟩
      exact (sameAt_delete h hnumber hdel hx).holds hschema (h.holds x)

/-! ## Dropping a user -/

theorem get?_foldl_withoutUser (user : String) (numbers : List Nat)
    (documents : SortedMap Nat StoredDocument) (x : Nat) :
    (numbers.foldl (fun m n => m.alter n (·.map (StoredDocument.withoutUser user)))
      documents).get? x =
      if x ∈ numbers then (documents.get? x).map (StoredDocument.withoutUser user)
      else documents.get? x := by
  induction numbers generalizing documents with
  | nil => simp
  | cons n rest ih =>
      rw [List.foldl_cons, ih, SortedMap.get?_alter]
      by_cases hx : x = n
      · subst hx
        by_cases hrest : x ∈ rest
        · have htwice : StoredDocument.withoutUser user ∘ StoredDocument.withoutUser user =
              StoredDocument.withoutUser user :=
            funext (StoredDocument.withoutUser_withoutUser user)
          simp [hrest, Option.map_map, htwice]
        · simp [hrest]
      · simp [hx]

/-- Every number carries its document without the user. -/
theorem holds_deleteUser (user : String) {d : Nat} {entry : Option Entry}
    (hd : s.Holds d entry) : (s.deleteUser user).Holds d (entry.map (·.withoutUser user)) where
  stored := by
    show ((s.access.removeUser user).1.foldl
      (fun m n => m.alter n (·.map (StoredDocument.withoutUser user))) s.documents).get? d = _
    rw [get?_foldl_withoutUser, hd.stored]
    split
    · cases entry <;> rfl
    · next hmem =>
        -- whoever is not on the list of the user does not have the user on theirs
        rw [AccessLists.mem_removeUser, hd.sees] at hmem
        cases entry with
        | none => rfl
        | some e =>
            have hnot : user ∉ e.stored.access := fun huser => hmem ⟨e, rfl, huser⟩
            exact congrArg some (StoredDocument.withoutUser_of_not_mem hnot).symm
  positions t := by
    rw [show (s.deleteUser user).postings = s.postings from rfl, hd.positions]
    cases entry <;> rfl
  sees u := by
    rw [show (s.deleteUser user).access = (s.access.removeUser user).2 from rfl,
      AccessLists.sees_removeUser, hd.sees]
    constructor
    · rintro ⟨⟨e, rfl, hu⟩, hne⟩
      exact ⟨e.withoutUser user, rfl, StoredDocument.mem_access_withoutUser.mpr ⟨hu, hne⟩⟩
    · rintro ⟨e', he', hu⟩
      obtain ⟨e, rfl, rfl⟩ := Option.map_eq_some_iff.mp he'
      obtain ⟨hmem, hne⟩ := StoredDocument.mem_access_withoutUser.mp hu
      exact ⟨⟨e, rfl, hmem⟩, hne⟩
  record := by
    rw [show (s.deleteUser user).metadata = s.metadata from rfl, hd.record]
    cases entry <;> rfl
  inOrder e he := by
    obtain ⟨e', rfl, rfl⟩ := Option.map_eq_some_iff.mp he
    exact (hd.inOrder e' rfl).withoutUser user

theorem Sound.deleteUser (h : s.Sound) (user : String) : (s.deleteUser user).Sound := by
  refine .intro h.numbering ?_ fun d => ⟨_, holds_deleteUser user (h.holds d), ?_⟩
  · exact ⟨h.tidy.postings, h.tidy.access.removeUser user, h.tidy.table⟩
  · rw [show (s.deleteUser user).id? d = s.id? d from rfl, h.id]
    cases s.entryAt? d <;> rfl

/-! ## Another schema -/

/-- Without documents no number is mapped. -/
theorem Sound.id?_of_size_eq_zero (h : s.Sound) (hsize : s.size = 0) (d : Nat) :
    s.id? d = none := by
  cases hd : s.id? d with
  | none => rfl
  | some x =>
      have hmap : s.numbering.numbers.get? x = some d := (h.numbering.inverse x d).mpr hd
      rw [SortedMap.size_eq_zero_iff.mp hsize x] at hmap
      cases hmap

/-- With a new table no number carries anything, if none did before. -/
theorem holds_define (schema : Schema) {d : Nat} (hd : s.Holds d none) :
    ({ s with metadata := .empty schema } : Snapshot).Holds d none where
  stored := hd.stored
  positions := hd.positions
  sees := hd.sees
  record := Table.recordOf_empty schema d
  inOrder := nofun

theorem Sound.define (h : s.Sound) (hsize : s.size = 0) (schema : Schema) :
    ({ s with metadata := .empty schema } : Snapshot).Sound := by
  refine .intro h.numbering ⟨h.tidy.postings, h.tidy.access, Table.sound_empty schema⟩ fun d => ?_
  have hnone := h.id?_of_size_eq_zero hsize d
  exact ⟨none, holds_define schema (h.holds_none hnone), hnone⟩

/-! ## Migration -/

/-- Numbers of documents are in reach of a migration, and other numbers have records of zeros. -/
theorem Sound.le_maxNumber_or_zero (h : s.Sound) (d : Nat) :
    d ≤ s.maxNumber ∨ s.metadata.recordOf d = s.metadata.schema.zeroRecord := by
  cases hd : s.id? d with
  | none =>
      right
      exact (h.holds_none hd).record
  | some x =>
      left
      have := h.numbering.live_range d ⟨x, hd⟩
      rw [maxNumber, Numbering.maxNumber]
      omega

/-- After a migration every document has its record converted, and nothing else is changed. -/
theorem holds_alter (h : s.Sound) {alterations : List Alteration} {table : Table}
    (halter : s.metadata.alter alterations s.maxNumber = .ok table) :
    ∃ layout new, Table.target s.metadata.schema alterations = .ok (layout, new) ∧
      table.schema = new ∧ table.Sound ∧ ∀ d entry, s.Holds d entry →
        (∀ e, entry = some e →
          Table.convert s.metadata.schema layout d e.record = .ok (table.recordOf d)) ∧
        ({ s with metadata := table } : Snapshot).Holds d
          (entry.map fun e => { e with record := table.recordOf d }) := by
  obtain ⟨layout, new, htarget, hschema, hsound, hrecord⟩ := Table.alter_eq_ok halter
  refine ⟨layout, new, htarget, hschema, hsound, fun d entry hd => ?_⟩
  have hconvert := hrecord d (h.le_maxNumber_or_zero d)
  cases entry with
  | none =>
      refine ⟨nofun, hd.stored, hd.positions, hd.sees, ?_, nofun⟩
      -- zeros are converted to zeros
      rw [hd.record, Option.map_none, Option.getD_none,
        Table.convert_zeroRecord (Table.columns_of_target htarget)] at hconvert
      exact (Except.ok.inj hconvert).symm.trans (by rw [← hschema]; rfl)
  | some e =>
      rw [hd.record] at hconvert
      refine ⟨fun e' he' => ?_, hd.stored, hd.positions, fun user => ?_, rfl, fun e' he' => ?_⟩
      · cases he'
        exact hconvert
      · refine (hd.sees user).trans ⟨?_, ?_⟩
        · rintro ⟨e', he', huser⟩
          cases he'
          exact ⟨_, rfl, huser⟩
        · rintro ⟨e', he', huser⟩
          cases he'
          exact ⟨_, rfl, huser⟩
      · cases he'
        exact hd.inOrder e rfl

theorem Sound.alter (h : s.Sound) {alterations : List Alteration} {table : Table}
    (halter : s.metadata.alter alterations s.maxNumber = .ok table) :
    ({ s with metadata := table } : Snapshot).Sound := by
  obtain ⟨layout, new, -, -, hsound, hholds⟩ := holds_alter h halter
  refine .intro h.numbering ⟨h.tidy.postings, h.tidy.access, hsound⟩ fun d =>
    ⟨_, (hholds d _ (h.holds d)).2, ?_⟩
  rw [show ({ s with metadata := table } : Snapshot).id? d = s.id? d from rfl, h.id]
  cases s.entryAt? d <;> rfl

/-! ## Every operation -/

/-- Every operation that succeeds keeps snapshots sound. -/
theorem Sound.apply (h : s.Sound) {op : Operation} (hop : s.Unclaimed op)
    (happly : s.apply op = .ok (touched, s')) : s'.Sound := by
  cases op with
  | insert number id doc =>
      obtain ⟨hnumber, hfree⟩ := hop
      exact h.insert hnumber hfree happly
  | delete id => exact h.delete happly
  | deleteUser user =>
      cases happly
      exact h.deleteUser user
  | define schema =>
      rw [Snapshot.apply] at happly
      split at happly
      · next hsize =>
          cases happly
          exact h.define hsize schema
      · cases happly
  | alter alterations =>
      obtain ⟨table, htable, hs'⟩ := Fallible.bind_eq_ok.mp happly
      cases hs'
      exact h.alter (Fallible.mapError_eq_ok.mp htable)

end Concordance.Snapshot
