import Concordance.Proofs.Store.Execution

/-!
# The contents of a storage

What a storage holds, seen from outside, is a schema and a map from identifiers to documents, each
with its metadata record. `Contents` is that map, and `Contents.step` runs one staged change on it;
numbers, posting lists and access lists have no part in it. A ready snapshot `Shows` contents, and
executing a staged change on the snapshot is running it on the contents: what the snapshot accepts
is a step of the contents (`Follows.step_of_executeOne`), what the contents accept is accepted by
the snapshot (`Follows.executeOne_of_step`), and the results show each other.
-/

namespace Concordance

/-- A schema, and documents by their identifiers. -/
structure Contents where
  accessControl : Bool
  schema : Schema
  documents : SortedMap String Entry := ∅

/-- How many documents were created, replaced and deleted. -/
structure Tally where
  created : Nat := 0
  replaced : Nat := 0
  deleted : Nat := 0
  deriving DecidableEq, Repr

namespace Contents

/-- Stores a document, provided that its values fit the schema. -/
def put (c : Contents) (id : String) (doc : Document) : Option Contents :=
  match c.schema.buildRecord doc with
  | .ok record =>
    some { c with
      documents := c.documents.insert id ⟨StoredDocument.ofDocument id doc c.accessControl, record⟩ }
  | .error _ => none

/-- Changes the metadata of all documents, provided that every value can be converted. -/
def migrate (c : Contents) (alterations : List Alteration) : Option Contents :=
  match Table.target c.schema alterations with
  | .error _ => none
  | .ok (layout, schema) =>
    let converted (e : Entry) := Table.convert c.schema layout 0 e.record
    if c.documents.values.all fun e => (converted e).isOk then
      some { c with
        schema
        documents := c.documents.map fun _ e => { e with record := (converted e).toOption.getD [] } }
    else none

/-- Runs one staged change: nothing if it is illegal. -/
def step (c : Contents) (t : Tally) : StagedOperation → Option (Contents × Tally)
  | .insert id doc update =>
    if c.documents.contains id then
      if update then (c.put id doc).map (·, { t with replaced := t.replaced + 1 }) else none
    else (c.put id doc).map (·, { t with created := t.created + 1 })
  | .delete id =>
    if c.documents.contains id then
      some ({ c with documents := c.documents.erase id }, { t with deleted := t.deleted + 1 })
    else none
  | .deleteUser user =>
    some ({ c with documents := c.documents.map fun _ e => e.withoutUser user }, t)
  | .define schema => if c.documents.isEmpty then some ({ c with schema }, t) else none
  | .alter alterations => (c.migrate alterations).map (·, t)

/-- Runs staged changes one after the other. -/
def run (c : Contents) (t : Tally) : List StagedOperation → Option (Contents × Tally)
  | [] => some (c, t)
  | staged :: rest => (c.step t staged).bind fun (c, t) => c.run t rest

variable {c c' : Contents} {t t' : Tally} {id : String}

/-- Wherever an inserted document stands, its record fits the schema. -/
theorem buildRecord_of_step {doc : Document} {update : Bool}
    (h : c.step t (.insert id doc update) = some (c', t')) :
    ∃ record, c.schema.buildRecord doc = .ok record := by
  cases hrecord : c.schema.buildRecord doc with
  | ok record => exact ⟨record, rfl⟩
  | error e =>
      have hput : c.put id doc = none := by rw [put, hrecord]
      rw [step, hput] at h
      split at h
      · split at h <;> cases h
      · cases h

theorem contains_of_step (h : c.step t (.delete id) = some (c', t')) :
    c.documents.contains id = true := by
  rw [step] at h
  split at h
  · assumption
  · cases h

theorem isEmpty_of_step {schema : Schema} (h : c.step t (.define schema) = some (c', t')) :
    c.documents.isEmpty = true := by
  rw [step] at h
  split at h
  · assumption
  · cases h

end Contents

namespace Table

/-- The number of a document has no part in the conversion of its record. -/
theorem convert_eq_ok_congr {schema : Schema} {layout : List Descent} {record r : List UInt8}
    {m : Nat} (h : convert schema layout m record = .ok r) (n : Nat) :
    convert schema layout n record = .ok r := by
  have hcolumn : ∀ d bytes, (empty schema).convertColumn m record d = .ok bytes →
      (empty schema).convertColumn n record d = .ok bytes := by
    intro d bytes hd
    unfold convertColumn at hd ⊢
    split at hd
    · exact hd
    · split at hd
      · next hencode => exact hd
      · cases hd
  obtain ⟨pieces, hpieces, rfl⟩ := Fallible.map_eq_ok.mp h
  exact Fallible.map_eq_ok.mpr ⟨pieces, Fallible.mapM_eq_ok_of_imp hcolumn hpieces, rfl⟩

end Table

namespace Snapshot

/-- The document of an identifier, as the index holds it. -/
def entryFor? (s : Snapshot) (id : String) : Option Entry := (s.number? id).bind s.entryAt?

/-- A snapshot holds these contents and nothing else. -/
structure Shows (s : Snapshot) (c : Contents) : Prop where
  accessControl : s.accessControl = c.accessControl
  schema : s.metadata.schema = c.schema
  documents : ∀ id, s.entryFor? id = c.documents.get? id

variable {s s' : Snapshot} {touched : List Term} {floor : Nat}

/-- A mapped identifier has an entry. -/
theorem Sound.entryFor?_isSome (h : s.Sound) {id : String} {d : Nat} (hid : s.number? id = some d) :
    ∃ e, s.entryAt? d = some e := by
  exact h.isLive_iff.mp ⟨id, h.mapped.mp hid⟩

theorem Sound.entryFor?_eq_none_iff (h : s.Sound) {id : String} :
    s.entryFor? id = none ↔ s.number? id = none := by
  unfold entryFor?
  cases hid : s.number? id with
  | none => simp
  | some d =>
      obtain ⟨e, he⟩ := h.entryFor?_isSome hid
      simp [he]

theorem Shows.contains_iff (h : s.Sound) {c : Contents} (hc : s.Shows c) {id : String} :
    c.documents.contains id = true ↔ s.number? id ≠ none := by
  rw [SortedMap.contains, ← hc.documents, Option.isSome_iff_ne_none, ne_eq, h.entryFor?_eq_none_iff]

/-! ## What operations do to the document of an identifier -/

/-- An insertion gives its identifier the new document and leaves the others theirs. -/
theorem entryFor?_insert (h : s.Sound) {number : Nat} {id : String} {doc : Document}
    (hnumber : number ≠ 0) (hfree : ∀ x, s.id? number = some x → x = id)
    (hins : s.insert number id doc = .ok (touched, s')) :
    ∃ record, s.metadata.schema.buildRecord doc = .ok record ∧
      ∀ x, s'.entryFor? x =
        if x = id then some ⟨StoredDocument.ofDocument id doc s.accessControl, record⟩
        else s.entryFor? x := by
  obtain ⟨record, hrecord, hholds⟩ := holds_insert h hnumber hfree hins
  have hnumbers : ∀ x, s'.number? x = if x = id then some number else s.number? x := by
    obtain ⟨-, record', -, -, rfl⟩ := (insert_eq_ok h hfree).mp hins
    exact fun x => Numbering.number?_assign _ _ _ _
  refine ⟨record, hrecord, fun x => ?_⟩
  rw [entryFor?, hnumbers]
  by_cases hx : x = id
  · rw [if_pos hx, if_pos hx, Option.bind_some, hholds.entryAt?_eq]
  · rw [if_neg hx, if_neg hx, entryFor?]
    cases hd : s.number? x with
    | none => rfl
    | some d =>
        have hne : d ≠ number := fun heq =>
          hx (hfree x (heq ▸ h.mapped.mp hd))
        exact (sameAt_insert h hnumber hfree hins hne).entryAt?_eq

theorem entryFor?_delete (h : s.Sound) {id : String} (hdel : s.delete id = .ok (touched, s'))
    (x : String) : s'.entryFor? x = if x = id then none else s.entryFor? x := by
  obtain ⟨d, numbering, hrel, -, heq⟩ := delete_eq_ok.mp hdel
  obtain ⟨hnumber, hnumbers, -, -, -, -⟩ := Numbering.release_eq_some hrel
  have hx : s'.number? x = if x = id then none else s.number? x := by
    rw [heq]
    exact hnumbers x
  rw [entryFor?, hx]
  by_cases hxid : x = id
  · rw [if_pos hxid, if_pos hxid]
    rfl
  · rw [if_neg hxid, if_neg hxid, entryFor?]
    cases hd : s.number? x with
    | none => rfl
    | some e =>
        have hne : e ≠ d := fun hed =>
          hxid (h.numbering.number?_injective (hed ▸ hd) hnumber)
        exact (sameAt_delete h hnumber hdel hne).entryAt?_eq

theorem entryFor?_deleteUser (h : s.Sound) (user id : String) :
    (s.deleteUser user).entryFor? id = (s.entryFor? id).map (·.withoutUser user) := by
  unfold entryFor?
  rw [show (s.deleteUser user).number? id = s.number? id from rfl]
  cases s.number? id with
  | none => rfl
  | some d => exact (holds_deleteUser user (h.holds d)).entryAt?_eq

/-! ## Showing contents -/

theorem shows_empty (schema : Schema) (accessControl : Bool) :
    (empty schema accessControl).Shows { accessControl, schema } :=
  ⟨rfl, rfl, fun _ => rfl⟩

/-- A snapshot shows one map of documents only. -/
theorem Shows.unique {c c' : Contents} (h : s.Shows c) (h' : s.Shows c') : c = c' := by
  obtain ⟨accessControl, schema, documents⟩ := c
  obtain ⟨accessControl', schema', documents'⟩ := c'
  have haccess : accessControl = accessControl' := h.accessControl.symm.trans h'.accessControl
  have hschema : schema = schema' := h.schema.symm.trans h'.schema
  have hdocuments : documents = documents' :=
    SortedMap.ext_get? fun id => (h.documents id).symm.trans (h'.documents id)
  rw [haccess, hschema, hdocuments]

theorem shows_insert (h : s.Sound) {c : Contents} (hc : s.Shows c) {number : Nat} {id : String}
    {doc : Document} (hnumber : number ≠ 0) (hfree : ∀ x, s.id? number = some x → x = id)
    (hins : s.insert number id doc = .ok (touched, s')) :
    ∃ c', c.put id doc = some c' ∧ s'.Shows c' := by
  obtain ⟨record, hrecord, hentries⟩ := entryFor?_insert h hnumber hfree hins
  have hrecord' := hrecord
  rw [hc.schema] at hrecord'
  refine ⟨_, by rw [Contents.put, hrecord'], ?_, ?_, fun x => ?_⟩
  · have hhead :=
      head_of_apply h (show s.Unclaimed (.insert number id doc) from ⟨hnumber, hfree⟩) hins
    exact hhead.2.2.trans hc.accessControl
  · exact (schema_insert hins).trans hc.schema
  · rw [hentries, hc.documents, hc.accessControl, SortedMap.get?_insert]

theorem shows_delete (h : s.Sound) {c : Contents} (hc : s.Shows c) {id : String}
    (hdel : s.delete id = .ok (touched, s')) :
    s'.Shows { c with documents := c.documents.erase id } where
  accessControl :=
    (head_of_apply h (show s.Unclaimed (.delete id) from trivial) hdel).2.2.trans hc.accessControl
  schema := (schema_delete hdel).trans hc.schema
  documents x := by rw [entryFor?_delete h hdel, hc.documents, SortedMap.get?_erase]

theorem shows_deleteUser (h : s.Sound) {c : Contents} (hc : s.Shows c) (user : String) :
    (s.deleteUser user).Shows
      { c with documents := c.documents.map fun _ e => e.withoutUser user } where
  accessControl := hc.accessControl
  schema := hc.schema
  documents x := by
    show _ = (c.documents.map fun _ e => e.withoutUser user).get? x
    rw [entryFor?_deleteUser h, hc.documents, SortedMap.get?_map]

theorem Shows.isEmpty_iff (h : s.Sound) {c : Contents} (hc : s.Shows c) :
    c.documents.isEmpty = true ↔ s.size = 0 := by
  have hsame : ∀ id, c.documents.get? id = none ↔ s.numbering.numbers.get? id = none := by
    intro id
    rw [← hc.documents, h.entryFor?_eq_none_iff]
    rfl
  rw [SortedMap.isEmpty_iff, size, SortedMap.size_eq_zero_iff]
  exact forall_congr' hsame

theorem shows_define (h : s.Sound) {c : Contents} (hc : s.Shows c) (hsize : s.size = 0)
    (schema : Schema) :
    ({ s with metadata := .empty schema } : Snapshot).Shows { c with schema } where
  accessControl := hc.accessControl
  schema := rfl
  documents id := by
    have hnone : s.number? id = none := SortedMap.size_eq_zero_iff.mp hsize id
    rw [entryFor?, show ({ s with metadata := .empty schema } : Snapshot).number? id = none from hnone,
      ← hc.documents, h.entryFor?_eq_none_iff.mpr hnone]
    rfl

/-- A migration of a snapshot is a migration of its contents. -/
theorem shows_alter (h : s.Sound) {c : Contents} (hc : s.Shows c) {alterations : List Alteration}
    {table : Table} (halter : s.metadata.alter alterations s.maxNumber = .ok table) :
    ∃ c', c.migrate alterations = some c' ∧
      ({ s with metadata := table } : Snapshot).Shows c' := by
  obtain ⟨layout, new, htarget, hschema, -, hholds⟩ := holds_alter h halter
  rw [hc.schema] at htarget hholds
  -- the record of every document is converted to the one that the table has for it
  have hrecord : ∀ id e, c.documents.get? id = some e →
      ∃ d, s.number? id = some d ∧
        Table.convert c.schema layout 0 e.record = .ok (table.recordOf d) := by
    intro id e he
    rw [← hc.documents, entryFor?] at he
    obtain ⟨d, hd, hentry⟩ := Option.bind_eq_some_iff.mp he
    exact ⟨d, hd, Table.convert_eq_ok_congr ((hholds d _ (h.holds d)).1 e hentry) 0⟩
  have hall : (c.documents.values.all fun e =>
      (Table.convert c.schema layout 0 e.record).isOk) = true := by
    rw [List.all_eq_true]
    intro e he
    obtain ⟨⟨id, e'⟩, hmem, rfl⟩ := List.mem_map.mp he
    obtain ⟨d, -, hconvert⟩ := hrecord id e' (SortedMap.mem_toList.mp hmem)
    rw [hconvert]
    rfl
  refine ⟨_, by simp only [Contents.migrate, htarget]; rw [if_pos hall], ?_, hschema, fun id => ?_⟩
  · exact hc.accessControl
  · rw [SortedMap.get?_map, ← hc.documents, entryFor?, entryFor?,
      show ({ s with metadata := table } : Snapshot).number? id = s.number? id from rfl]
    cases hd : s.number? id with
    | none => rfl
    | some d =>
        rw [Option.bind_some, Option.bind_some, (hholds d _ (h.holds d)).2.entryAt?_eq]
        cases he : s.entryAt? d with
        | none => rfl
        | some e =>
            have hget : c.documents.get? id = some e := by
              rw [← hc.documents, entryFor?, hd, Option.bind_some, he]
            obtain ⟨d', hd', hconvert⟩ := hrecord id e hget
            rw [hd] at hd'
            cases hd'
            simp only [Option.map_some, hconvert, Except.toOption, Option.getD_some]

/-- Contents that can be migrated are those of snapshots that can be. -/
theorem alter_of_migrate (h : s.Sound) {c c' : Contents} (hc : s.Shows c)
    {alterations : List Alteration} (hmigrate : c.migrate alterations = some c') :
    ∃ table, s.metadata.alter alterations s.maxNumber = .ok table := by
  unfold Contents.migrate at hmigrate
  split at hmigrate
  · cases hmigrate
  · next layout schema htarget =>
      dsimp only at hmigrate
      split at hmigrate
      · next hall =>
          rw [← hc.schema] at htarget hall
          refine Table.alter_eq_ok_iff.mpr ⟨layout, schema, htarget, fun d _ => ?_⟩
          cases he : s.entryAt? d with
          | none =>
              -- numbers without a document have records of zeros
              have hnone := h.holds d
              rw [he] at hnone
              rw [hnone.record]
              exact ⟨_, Table.convert_zeroRecord (Table.columns_of_target htarget) d⟩
          | some e =>
              have hholds := h.holds d
              rw [he] at hholds
              have hid : s.id? d = some e.stored.id := by rw [h.id, he]; rfl
              have hget : c.documents.get? e.stored.id = some e := by
                rw [← hc.documents, entryFor?, h.mapped.mpr hid, Option.bind_some, he]
              have hmem : e ∈ c.documents.values :=
                List.mem_map.mpr ⟨(e.stored.id, e), SortedMap.mem_toList.mpr hget, rfl⟩
              have hok := List.all_eq_true.mp hall e hmem
              rw [hholds.record, Option.map_some, Option.getD_some]
              cases hconvert : Table.convert s.metadata.schema layout 0 e.record with
              | error fault => rw [hconvert] at hok; cases hok
              | ok r => exact ⟨r, Table.convert_eq_ok_congr hconvert d⟩
      · cases hmigrate

end Snapshot

namespace Store

open Snapshot

/-- A summary counts what a tally does. -/
structure Counts (summary : CommitSummary) (t : Tally) : Prop where
  created : summary.inserted = t.created
  replaced : summary.updated = t.replaced
  deleted : summary.deleted = t.deleted

variable {floor : Nat} {e e' : Execution} {c c' : Contents} {t t' : Tally}
  {staged : StagedOperation}

/-- What an execution has reached so far, on the snapshot and on the contents. -/
structure Follows (floor : Nat) (e : Execution) (c : Contents) (t : Tally) : Prop where
  ready : Ready floor e.snapshot
  shows : e.snapshot.Shows c
  counts : Counts e.summary t

/-- An executed change is a step on the contents. -/
theorem Follows.step_of_executeOne (h : Follows floor e c t)
    (hexec : executeOne e staged = .ok e') :
    ∃ c' t', c.step t staged = some (c', t') ∧ Follows floor e' c' t' := by
  obtain ⟨hready, hshows, hcounts⟩ := h
  have hsound := hready.sound
  obtain ⟨hclash, touched, s', happly, rfl⟩ := (executeOne_eq_ok hsound).mp hexec
  have hready' : Ready floor s' := hready.apply happly
  have hunclaimed := unclaimed_operationFor hsound staged
  cases staged with
  | insert id doc update =>
      obtain ⟨c', hput, hshows'⟩ :=
        shows_insert hsound hshows hunclaimed.1 hunclaimed.2 happly
      -- a document that is there is only replaced by an update
      by_cases hthere : c.documents.contains id = true
      · have hmapped := (hshows.contains_iff hsound).mp hthere
        have hupdate : update = true := by
          cases update with
          | true => rfl
          | false => exact absurd ⟨hmapped, rfl⟩ hclash
        obtain ⟨d, hd⟩ := Option.ne_none_iff_exists'.mp hmapped
        refine ⟨c', _, by rw [Contents.step, if_pos hthere, if_pos hupdate, hput]; rfl, hready',
          hshows', ?_⟩
        rw [Execution.extend, counted, hd]
        exact ⟨hcounts.created, congrArg (· + 1) hcounts.replaced, hcounts.deleted⟩
      · have hunmapped : e.snapshot.number? id = none :=
          Classical.byContradiction fun hne => hthere ((hshows.contains_iff hsound).mpr hne)
        refine ⟨c', _, by rw [Contents.step, if_neg hthere, hput]; rfl, hready', hshows', ?_⟩
        rw [Execution.extend, counted, hunmapped]
        exact ⟨congrArg (· + 1) hcounts.created, hcounts.replaced, hcounts.deleted⟩
  | delete id =>
      obtain ⟨d, numbering, hrel, -, -⟩ := delete_eq_ok.mp happly
      have hmapped : e.snapshot.number? id ≠ none := by
        rw [number?, (Numbering.release_eq_some hrel).1]
        exact Option.some_ne_none d
      have hthere := (hshows.contains_iff hsound).mpr hmapped
      refine ⟨_, _, by rw [Contents.step, if_pos hthere], hready',
        shows_delete hsound hshows happly, ?_⟩
      exact ⟨hcounts.created, hcounts.replaced, congrArg (· + 1) hcounts.deleted⟩
  | deleteUser user =>
      cases happly
      exact ⟨_, _, rfl, hready', shows_deleteUser hsound hshows user, hcounts⟩
  | define schema =>
      rw [operationFor, Snapshot.apply] at happly
      split at happly
      · next hsize =>
          cases happly
          have hempty := (hshows.isEmpty_iff hsound).mpr hsize
          exact ⟨_, _, by rw [Contents.step, if_pos hempty], hready',
            shows_define hsound hshows hsize schema, hcounts⟩
      · cases happly
  | alter alterations =>
      obtain ⟨table, htable, hs'⟩ := Fallible.bind_eq_ok.mp happly
      cases hs'
      obtain ⟨c', hmigrate, hshows'⟩ :=
        shows_alter hsound hshows (Fallible.mapError_eq_ok.mp htable)
      exact ⟨c', t, by rw [Contents.step, hmigrate]; rfl, hready', hshows', hcounts⟩

/-- A step on the contents can be executed. -/
theorem Follows.executeOne_of_step (h : Follows floor e c t)
    (hstep : c.step t staged = some (c', t')) : ∃ e', executeOne e staged = .ok e' := by
  obtain ⟨hready, hshows, hcounts⟩ := h
  have hsound := hready.sound
  have hunclaimed := unclaimed_operationFor hsound staged
  suffices happly : ¬ e.snapshot.Clashes staged ∧
      ∃ r, e.snapshot.apply (e.snapshot.operationFor staged) = .ok r by
    obtain ⟨hclash, ⟨touched, s'⟩, happly⟩ := happly
    exact ⟨_, (executeOne_eq_ok hsound).mpr ⟨hclash, touched, s', happly, rfl⟩⟩
  cases staged with
  | insert id doc update =>
      obtain ⟨record, hrecord⟩ := Contents.buildRecord_of_step hstep
      rw [← hshows.schema] at hrecord
      refine ⟨fun ⟨hmapped, hupdate⟩ => ?_, _, (insert_eq_ok hsound hunclaimed.2).mpr
        ⟨fun d hd => ?_, record, hrecord, rfl, rfl⟩⟩
      · have hthere := (hshows.contains_iff hsound).mpr hmapped
        rw [Contents.step, if_pos hthere, if_neg (by rw [hupdate]; nofun)] at hstep
        cases hstep
      · rw [Numbering.allocate_of_mapped hd]
  | delete id =>
      refine ⟨fun hclash => hclash, ?_⟩
      have hmapped := (hshows.contains_iff hsound).mp (Contents.contains_of_step hstep)
      cases hrel : e.snapshot.numbering.release id e.snapshot.generation with
      | none => exact absurd (Numbering.release_eq_none_iff.mp hrel) hmapped
      | some p => exact ⟨_, delete_eq_ok.mpr ⟨p.1, p.2, hrel, rfl, rfl⟩⟩
  | deleteUser user => exact ⟨fun hclash => hclash, _, rfl⟩
  | define schema =>
      refine ⟨fun hclash => hclash, ?_⟩
      have hsize := (hshows.isEmpty_iff hsound).mp (Contents.isEmpty_of_step hstep)
      exact ⟨_, by rw [operationFor, Snapshot.apply, if_pos hsize]⟩
  | alter alterations =>
      refine ⟨fun hclash => hclash, ?_⟩
      obtain ⟨c'', hmigrate, -⟩ := Option.map_eq_some_iff.mp hstep
      obtain ⟨table, htable⟩ := alter_of_migrate hsound hshows hmigrate
      exact ⟨_, Fallible.bind_eq_ok.mpr ⟨table, Fallible.mapError_eq_ok.mpr htable, rfl⟩⟩

/-- Executing a list of staged changes is running them on the contents. -/
theorem Follows.run (h : Follows floor e c t) (staged : List StagedOperation) :
    (∀ e', staged.foldlM executeOne e = .ok e' →
      ∃ c' t', c.run t staged = some (c', t') ∧ Follows floor e' c' t') ∧
    (∀ c' t', c.run t staged = some (c', t') → ∃ e', staged.foldlM executeOne e = .ok e') := by
  induction staged generalizing e c t with
  | nil =>
      refine ⟨fun e' he' => ?_, fun _ _ _ => ⟨e, rfl⟩⟩
      cases he'
      exact ⟨c, t, rfl, h⟩
  | cons first rest ih =>
      constructor
      · intro e' he'
        rw [List.foldlM_cons] at he'
        obtain ⟨e₁, hfirst, hrest⟩ := Fallible.bind_eq_ok.mp he'
        obtain ⟨c₁, t₁, hstep, hfollows⟩ := h.step_of_executeOne hfirst
        obtain ⟨c', t', hrun, hfollows'⟩ := (ih hfollows).1 e' hrest
        exact ⟨c', t', by rw [Contents.run, hstep]; exact hrun, hfollows'⟩
      · intro c' t' hrun
        obtain ⟨⟨c₁, t₁⟩, hstep, hrest⟩ := Option.bind_eq_some_iff.mp hrun
        obtain ⟨e₁, hfirst⟩ := h.executeOne_of_step hstep
        obtain ⟨c₂, t₂, hstep', hfollows⟩ := h.step_of_executeOne hfirst
        rw [hstep] at hstep'
        cases hstep'
        obtain ⟨e', hexec⟩ := (ih hfollows).2 c' t' hrest
        exact ⟨e', by rw [List.foldlM_cons, hfirst]; exact hexec⟩

end Store

end Concordance
