import Concordance.Metadata.Migration
import Concordance.Proofs.Metadata.Table

/-!
# What a migration does

The alterations of a migration lead from one schema to another (`target`), and every record of the
old schema is converted by itself (`convert`), whether the table has a row for it or not: zeros are
converted to zeros. `alter_eq_ok_iff` says when a migration succeeds and `alter_eq_ok` what it then
leaves, both in terms of `target`, `convert` and `recordOf` alone.
-/

namespace Concordance

namespace Schema

theorem ofColumns_eq_ok {columns : List Column} {s : Schema} (h : ofColumns columns = .ok s) :
    s.columns = columns := by
  unfold ofColumns at h
  split at h
  · cases h
    rfl
  · cases h

/-- A record of zeros is zeros in every column. -/
theorem zeroRecord_eq_flatMap (s : Schema) :
    s.zeroRecord = s.columns.flatMap (·.type.zeroBytes) := by
  unfold zeroRecord recordSize
  induction s.columns with
  | nil => rfl
  | cons c rest ih =>
      rw [List.flatMap_cons, ← ih, List.map_cons, Number.total, ColumnType.zeroBytes,
        List.replicate_append_replicate]

end Schema

namespace Table

/-- The columns that alterations lead to, and their schema. -/
def target (schema : Schema) (alterations : List Alteration) :
    Except MigrationFault (List Descent × Schema) := do
  let layout ← alterations.foldlM Alteration.run (empty schema).layout
  let schema ← (Schema.ofColumns (layout.map (·.column))).mapError .columns
  return (layout, schema)

/-- The conversion of one record. The number stands in the report of a failure only. -/
def convert (schema : Schema) (layout : List Descent) (number : Nat) (record : List UInt8) :
    Except MigrationFault (List UInt8) :=
  (layout.mapM ((empty schema).convertColumn number record)).map List.flatten

theorem columns_of_target {schema new : Schema} {alterations : List Alteration}
    {layout : List Descent} (h : target schema alterations = .ok (layout, new)) :
    new.columns = layout.map (·.column) := by
  obtain ⟨layout', -, h⟩ := Fallible.bind_eq_ok.mp h
  obtain ⟨new', hnew, h⟩ := Fallible.bind_eq_ok.mp h
  cases h
  exact Schema.ofColumns_eq_ok (Fallible.mapError_eq_ok.mp hnew)

/-! ## Conversions -/

theorem length_convertColumn {t : Table} {number : Nat} {record bytes : List UInt8} {d : Descent}
    (h : t.convertColumn number record d = .ok bytes) : bytes.length = d.column.type.size := by
  unfold convertColumn at h
  split at h
  · cases h
    exact ColumnType.length_zeroBytes _
  · split at h
    · next hencode =>
        cases h
        exact ColumnType.length_encode hencode
    · cases h

/-- A converted record has the width of the new schema. -/
theorem length_convert {schema new : Schema} {layout : List Descent} {number : Nat}
    {record converted : List UInt8} (hnew : new.columns = layout.map (·.column))
    (h : convert schema layout number record = .ok converted) :
    converted.length = new.recordSize := by
  obtain ⟨pieces, hpieces, rfl⟩ := Fallible.map_eq_ok.mp h
  rw [Schema.recordSize, hnew]
  clear hnew h
  induction layout generalizing pieces with
  | nil =>
      cases hpieces
      rfl
  | cons d rest ih =>
      obtain ⟨bytes, more, hbytes, hmore, rfl⟩ := Fallible.mapM_cons_eq_ok.mp hpieces
      rw [List.flatten_cons, List.length_append, length_convertColumn hbytes, ih more hmore]
      rfl

/-- A record of zeros is converted to a record of zeros. -/
theorem convert_zeroRecord {schema new : Schema} {layout : List Descent}
    (hnew : new.columns = layout.map (·.column)) (number : Nat) :
    convert schema layout number schema.zeroRecord = .ok new.zeroRecord := by
  have hcolumn : ∀ d ∈ layout, (empty schema).convertColumn number schema.zeroRecord d =
      .ok d.column.type.zeroBytes := by
    intro d _
    unfold convertColumn
    split
    · rfl
    · next source _ =>
        have hzero := schema.isZero_decode_zeroRecord source
        rw [show (empty schema).schema = schema from rfl, d.column.type.encode_of_isZero hzero]
  rw [convert, Fallible.mapM_eq_ok_map hcolumn, Schema.zeroRecord_eq_flatMap, hnew,
    List.flatMap_map, List.flatMap_def]
  rfl

/-! ## The new table -/

/-- Setting the records of some documents leaves all others as they are. -/
theorem Sound.foldl_setRecord {t : Table} (h : t.Sound) (record : Nat → List UInt8)
    {numbers : List Nat} (hnumbers : ∀ n ∈ numbers, n ≠ 0)
    (hlength : ∀ n ∈ numbers, (record n).length = t.schema.recordSize) :
    let new := (numbers.map fun n => (n, record n)).foldl (fun t (n, r) => t.setRecord n r) t
    new.Sound ∧ new.schema = t.schema ∧
      ∀ x, new.recordOf x = if x ∈ numbers then record x else t.recordOf x := by
  induction numbers generalizing t with
  | nil => exact ⟨h, rfl, fun x => by simp⟩
  | cons n rest ih =>
      have hn := hlength n List.mem_cons_self
      obtain ⟨hsound, hschema, hrecord⟩ := ih (t := t.setRecord n (record n)) (h.setRecord n hn)
        (fun m hm => hnumbers m (List.mem_cons_of_mem _ hm))
        (fun m hm => by
          rw [schema_setRecord]
          exact hlength m (List.mem_cons_of_mem _ hm))
      refine ⟨hsound, hschema.trans (schema_setRecord _ _ _), fun x => ?_⟩
      rw [show (((n :: rest).map fun n => (n, record n)).foldl (fun t (n, r) => t.setRecord n r) t) =
        ((rest.map fun n => (n, record n)).foldl (fun t (n, r) => t.setRecord n r)
          (t.setRecord n (record n))) from rfl, hrecord,
        h.recordOf_setRecord (hnumbers n List.mem_cons_self) hn]
      by_cases hx : x = n
      · subst hx
        by_cases hrest : x ∈ rest <;> simp [hrest]
      · simp [hx]

variable {t : Table} {alterations : List Alteration} {maxNumber : Nat}

theorem mem_recorded {x : Nat} :
    x ∈ t.recorded maxNumber ↔
      t.schema.recordSize ≠ 0 ∧ 1 ≤ x ∧ x ≤ maxNumber ∧ x ≤ t.blocks * blockRows := by
  unfold recorded
  split
  · next hsize => simp [hsize]
  · next hsize =>
      rw [List.mem_range'_1]
      omega

/-- A document that has no row in reach has a record of zeros. -/
theorem recordOf_of_not_mem_recorded {x : Nat} (hx : x ∉ t.recorded maxNumber)
    (hmax : x ≤ maxNumber) : t.recordOf x = t.schema.zeroRecord := by
  by_cases haddr : t.addressable x = true
  · simp only [addressable, Bool.and_eq_true, decide_eq_true_eq] at haddr
    refine recordOf_of_blocks_le ?_
    rw [mem_recorded] at hx
    omega
  · rw [recordOf, record?, if_neg (by simp [haddr]), Option.getD_none]

theorem convertRecord_eq (t : Table) (layout : List Descent) (number : Nat) :
    t.convertRecord layout number =
      (convert t.schema layout number (t.recordOf number)).map (number, ·) := by
  unfold convertRecord convert recordOf
  rw [show (empty t.schema).convertColumn = t.convertColumn from rfl]
  dsimp only
  cases layout.mapM (t.convertColumn number ((t.record? number).getD t.schema.zeroRecord)) <;> rfl

/-- The converted record of a document. -/
def converted (t : Table) (layout : List Descent) (number : Nat) : List UInt8 :=
  (convert t.schema layout number (t.recordOf number)).toOption.getD []

theorem convert_eq_converted {layout : List Descent} {x : Nat}
    (h : ∃ r, convert t.schema layout x (t.recordOf x) = .ok r) :
    convert t.schema layout x (t.recordOf x) = .ok (t.converted layout x) := by
  obtain ⟨r, hr⟩ := h
  rw [converted, hr]
  rfl

theorem mapM_convertRecord {layout : List Descent}
    (h : ∀ x ≤ maxNumber, ∃ r, convert t.schema layout x (t.recordOf x) = .ok r) :
    (t.recorded maxNumber).mapM (t.convertRecord layout) =
      .ok ((t.recorded maxNumber).map fun x => (x, t.converted layout x)) := by
  apply Fallible.mapM_eq_ok_map
  intro x hx
  rw [convertRecord_eq, convert_eq_converted (h x (mem_recorded.mp hx).2.2.1)]
  rfl

/-- A migration succeeds if and only if the alterations lead to a schema and the record of every
document can be converted. -/
theorem alter_eq_ok_iff :
    (∃ t', t.alter alterations maxNumber = .ok t') ↔
      ∃ layout new, target t.schema alterations = .ok (layout, new) ∧
        ∀ x ≤ maxNumber, ∃ r, convert t.schema layout x (t.recordOf x) = .ok r := by
  constructor
  · rintro ⟨t', h⟩
    obtain ⟨layout, hlayout, h⟩ := Fallible.bind_eq_ok.mp h
    obtain ⟨new, hnew, h⟩ := Fallible.bind_eq_ok.mp h
    obtain ⟨records, hrecords, -⟩ := Fallible.bind_eq_ok.mp h
    have htarget : target t.schema alterations = .ok (layout, new) :=
      Fallible.bind_eq_ok.mpr ⟨layout, hlayout, Fallible.bind_eq_ok.mpr ⟨new, hnew, rfl⟩⟩
    refine ⟨layout, new, htarget, fun x hx => ?_⟩
    by_cases hmem : x ∈ t.recorded maxNumber
    · obtain ⟨e, he⟩ := Fallible.ok_of_mapM_eq_ok hrecords hmem
      rw [convertRecord_eq] at he
      obtain ⟨r, hr, -⟩ := Fallible.map_eq_ok.mp he
      exact ⟨r, hr⟩
    · -- what is not gone through is zeros, and zeros can always be converted
      rw [recordOf_of_not_mem_recorded hmem hx]
      exact ⟨_, convert_zeroRecord (columns_of_target htarget) x⟩
  · rintro ⟨layout, new, htarget, hconvert⟩
    obtain ⟨layout', hlayout, htarget⟩ := Fallible.bind_eq_ok.mp htarget
    obtain ⟨new', hnew, htarget⟩ := Fallible.bind_eq_ok.mp htarget
    cases htarget
    exact ⟨_, Fallible.bind_eq_ok.mpr ⟨layout, hlayout, Fallible.bind_eq_ok.mpr ⟨new, hnew,
      Fallible.bind_eq_ok.mpr ⟨_, mapM_convertRecord hconvert, rfl⟩⟩⟩⟩

/-- What a successful migration leaves: the new schema, and for every document in reach, or with a
record of zeros, the conversion of its record. -/
theorem alter_eq_ok {t' : Table} (h : t.alter alterations maxNumber = .ok t') :
    ∃ layout new, target t.schema alterations = .ok (layout, new) ∧ t'.schema = new ∧ t'.Sound ∧
      ∀ x, (x ≤ maxNumber ∨ t.recordOf x = t.schema.zeroRecord) →
        convert t.schema layout x (t.recordOf x) = .ok (t'.recordOf x) := by
  obtain ⟨layout, new, htarget, hconvert⟩ := alter_eq_ok_iff.mp ⟨t', h⟩
  have hcolumns := columns_of_target htarget
  obtain ⟨layout', hlayout, h⟩ := Fallible.bind_eq_ok.mp h
  obtain ⟨new', hnew, h⟩ := Fallible.bind_eq_ok.mp h
  have htarget' : target t.schema alterations = .ok (layout', new') :=
    Fallible.bind_eq_ok.mpr ⟨layout', hlayout, Fallible.bind_eq_ok.mpr ⟨new', hnew, rfl⟩⟩
  cases Except.ok.inj (htarget.symm.trans htarget')
  have hconverted : ∀ x ≤ maxNumber,
      convert t.schema layout x (t.recordOf x) = .ok (t.converted layout x) := by
    intro x hx
    exact convert_eq_converted (hconvert x hx)
  rw [mapM_convertRecord hconvert] at h
  cases h
  have hnonzero : ∀ x ∈ t.recorded maxNumber, x ≠ 0 := fun x hx => by
    have := (mem_recorded.mp hx).2.1
    omega
  obtain ⟨hsound, hschema, hrecord⟩ := (sound_empty new).foldl_setRecord
    (t.converted layout) hnonzero
    (fun x hx => length_convert hcolumns (hconverted x (mem_recorded.mp hx).2.2.1))
  refine ⟨layout, new, htarget, hschema, hsound, fun x hx => ?_⟩
  rw [hrecord, recordOf_empty]
  split
  · next hmem => exact hconverted x (mem_recorded.mp hmem).2.2.1
  · next hmem =>
      have hzero : t.recordOf x = t.schema.zeroRecord :=
        hx.elim (recordOf_of_not_mem_recorded hmem) id
      rw [hzero, convert_zeroRecord hcolumns x]

end Table

end Concordance
