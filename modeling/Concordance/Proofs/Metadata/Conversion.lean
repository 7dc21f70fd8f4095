import Concordance.Proofs.Metadata.Descent
import Concordance.Proofs.Metadata.Migration
import Concordance.Proofs.Metadata.Value

/-!
# What a migration does to values

A migration fails if and only if an alteration is refused by the columns that those before it leave,
a column is left without a name, or a stored value does not fit the type of the column that it would
go to. Else the columns are the old ones altered in order, and every column of every document reads
the number of the column that its values come from, or zero.
-/

namespace Concordance

open Alteration (AnyRefused origin onColumns nameOf columnsOf Follows)

namespace Schema

/-! ## Columns -/

/-- Distinct names are all that a list of columns needs, if there are no empty ones. -/
theorem firstAfter_eq_none_iff {seen : List String} {columns : List Column}
    (h : (columns.map (·.name)).Nodup) (hseen : ∀ c ∈ columns, c.name ∉ seen) :
    ColumnsFault.firstAfter seen columns = none ↔ ∀ c ∈ columns, c.name ≠ "" := by
  induction columns generalizing seen with
  | nil => simp [ColumnsFault.firstAfter]
  | cons c rest ih =>
      obtain ⟨hc, hrest⟩ := List.nodup_cons.mp h
      have hseen' : ∀ d ∈ rest, d.name ∉ seen ++ [c.name] := by
        intro d hd hmem
        rcases List.mem_append.mp hmem with hmem | hmem
        · exact hseen d (List.mem_cons_of_mem _ hd) hmem
        · exact hc (List.mem_map.mpr ⟨d, hd, List.mem_singleton.mp hmem⟩)
      rw [ColumnsFault.firstAfter, List.forall_mem_cons]
      by_cases hname : c.name = ""
      · simp [hname]
      · rw [if_neg hname, if_neg (hseen c List.mem_cons_self), ih hrest hseen']
        exact (and_iff_right hname).symm

theorem name_ne_empty (s : Schema) : ∀ c ∈ s.columns, c.name ≠ "" :=
  (firstAfter_eq_none_iff s.distinct fun _ _ => List.not_mem_nil).mp s.valid

theorem exists_ofColumns_iff {columns : List Column} (h : (columns.map (·.name)).Nodup) :
    (∃ s, ofColumns columns = .ok s) ↔ ∀ c ∈ columns, c.name ≠ "" := by
  rw [← firstAfter_eq_none_iff h (fun _ _ => List.not_mem_nil)]
  unfold ofColumns
  constructor
  · rintro ⟨s, hs⟩
    split at hs
    · next hnone => exact hnone
    · cases hs
  · intro hnone
    split
    · exact ⟨_, rfl⟩
    · next fault hfault =>
        rw [hnone] at hfault
        cases hfault

theorem findIdx?_name {columns : List Column} (h : (columns.map (·.name)).Nodup) {i : Nat}
    {c : Column} (hc : columns[i]? = some c) : columns.findIdx? (·.name == c.name) = some i := by
  induction columns generalizing i with
  | nil => simp at hc
  | cons d rest ih =>
      rw [List.findIdx?_cons]
      obtain ⟨hd, hrest⟩ := List.nodup_cons.mp h
      cases i with
      | zero =>
          cases hc
          simp
      | succ i =>
          rw [List.getElem?_cons_succ] at hc
          have hne : d.name ≠ c.name := fun heq =>
            hd (List.mem_map.mpr ⟨c, List.mem_of_getElem? hc, heq.symm⟩)
          rw [if_neg (by simpa using hne), ih hrest hc]
          rfl

/-- A name leads to the place of the column that has it. -/
theorem indexOf?_eq_some_iff {s : Schema} {name : String} {i : Nat} :
    s.indexOf? name = some i ↔ ∃ c, s.columns[i]? = some c ∧ c.name = name := by
  constructor
  · intro h
    obtain ⟨hi, hname, -⟩ := List.findIdx?_eq_some_iff_getElem.mp h
    exact ⟨s.columns[i], List.getElem?_eq_getElem hi, by simpa using hname⟩
  · rintro ⟨c, hc, rfl⟩
    exact findIdx?_name s.distinct hc

/-! ## Records -/

/-- Where the bytes of a column lie among those of all columns. -/
theorem column_flatten {columns : List Column} {pieces : List (List UInt8)}
    (hlength : pieces.map List.length = columns.map (·.type.size)) {i : Nat} {c : Column}
    {bytes : List UInt8} (hc : columns[i]? = some c) (hbytes : pieces[i]? = some bytes) :
    (pieces.flatten.drop (Number.total ((columns.take i).map (·.type.size)))).take c.type.size =
      bytes := by
  induction columns generalizing pieces i with
  | nil => simp at hc
  | cons d rest ih =>
      cases pieces with
      | nil => simp at hbytes
      | cons piece more =>
          obtain ⟨hpiece, hmore⟩ := List.cons.inj hlength
          cases i with
          | zero =>
              cases hc
              cases hbytes
              exact List.take_left' hpiece
          | succ i =>
              rw [List.getElem?_cons_succ] at hc hbytes
              rw [List.take_succ_cons, List.map_cons, Number.total, List.flatten_cons,
                ← List.drop_drop, List.drop_left' hpiece]
              exact ih hmore hc hbytes

/-- A column of a record reads the bytes that the record was put together from. -/
theorem decode_flatten {s : Schema} {pieces : List (List UInt8)}
    (hlength : pieces.map List.length = s.columns.map (·.type.size)) {i : Nat} {c : Column}
    {bytes : List UInt8} (hc : s.columns[i]? = some c) (hbytes : pieces[i]? = some bytes) :
    s.decode pieces.flatten i = c.type.decode bytes := by
  rw [decode, hc]
  dsimp only
  rw [offset, column_flatten hlength hc hbytes]

end Schema

namespace Table

variable {schema new : Schema} {layout : List Descent} {alterations : List Alteration}

/-! ## Alterations of a schema -/

theorem mem_layout {d : Descent} :
    d ∈ (empty schema).layout ↔ ∃ i, schema.columns[i]? = some d.column ∧ d.source = some i := by
  rw [Table.layout, List.mem_map]
  constructor
  · rintro ⟨⟨c, i⟩, hmem, rfl⟩
    exact ⟨i, List.mem_zipIdx_iff_getElem?.mp hmem, rfl⟩
  · rintro ⟨i, hc, hsource⟩
    obtain ⟨c, source⟩ := d
    cases hsource
    exact ⟨(c, i), List.mem_zipIdx_iff_getElem?.mpr hc, rfl⟩

theorem columnsOf_layout (schema : Schema) : columnsOf (empty schema).layout = schema.columns := by
  rw [columnsOf, Table.layout, List.map_map]
  exact List.zipIdx_map_fst 0 schema.columns

theorem nodup_layout (schema : Schema) : ((empty schema).layout.map nameOf).Nodup := by
  rw [Alteration.map_nameOf, columnsOf_layout]
  exact schema.distinct

/-- What the layout of a migration knows: the columns are those that the alterations leave, and each
has the place of the column that its values come from. -/
theorem target_eq_ok (h : target schema alterations = .ok (layout, new)) :
    new.columns = alterations.foldl onColumns schema.columns ∧ new.columns = columnsOf layout ∧
      ¬ AnyRefused schema.columns alterations ∧
      ∀ d ∈ layout, d.source = (origin (nameOf d) alterations).bind schema.indexOf? ∧
        ∀ old ∈ origin (nameOf d) alterations, ∃ i, schema.indexOf? old = some i := by
  have hnew := columns_of_target h
  obtain ⟨layout', hlayout, h⟩ := Fallible.bind_eq_ok.mp h
  obtain ⟨new', -, h⟩ := Fallible.bind_eq_ok.mp h
  cases h
  obtain ⟨hnot, hcolumns, hfollows⟩ := Alteration.foldlM_run_eq_ok (nodup_layout schema) hlayout
  rw [columnsOf_layout] at hnot hcolumns
  refine ⟨hnew.trans hcolumns, hnew, hnot, fun d hd => ?_⟩
  have hd' := hfollows d hd
  cases horigin : origin (nameOf d) alterations with
  | none =>
      rw [horigin] at hd'
      exact ⟨hd', by simp⟩
  | some old =>
      rw [horigin] at hd'
      obtain ⟨e, he, rfl, hsource⟩ := hd'
      obtain ⟨i, hi, hplace⟩ := mem_layout.mp he
      have hindex : schema.indexOf? (nameOf e) = some i :=
        Schema.indexOf?_eq_some_iff.mpr ⟨e.column, hi, rfl⟩
      refine ⟨?_, ?_⟩
      · rw [hsource, hplace, Option.bind_some, hindex]
      · intro name hname
        cases hname
        exact ⟨i, hindex⟩

/-- Alterations lead to a schema if and only if none is refused and no column is left without a
name. -/
theorem exists_target_iff :
    (∃ r, target schema alterations = .ok r) ↔
      ¬ AnyRefused schema.columns alterations ∧
        ∀ c ∈ alterations.foldl onColumns schema.columns, c.name ≠ "" := by
  constructor
  · rintro ⟨⟨layout, new⟩, h⟩
    obtain ⟨hcolumns, -, hnot, -⟩ := target_eq_ok h
    exact ⟨hnot, hcolumns ▸ new.name_ne_empty⟩
  · rintro ⟨hnot, hnames⟩
    cases hrun : alterations.foldlM Alteration.run (empty schema).layout with
    | error fault =>
        have hrefused := Alteration.foldlM_run_eq_error (nodup_layout schema) hrun
        rw [columnsOf_layout] at hrefused
        exact absurd hrefused hnot
    | ok layout =>
        obtain ⟨-, hcolumns, -⟩ := Alteration.foldlM_run_eq_ok (nodup_layout schema) hrun
        have hnodup := Alteration.nodup_foldlM_run (nodup_layout schema) hrun
        rw [columnsOf_layout] at hcolumns
        rw [← hcolumns] at hnames
        rw [Alteration.map_nameOf] at hnodup
        obtain ⟨new, hnew⟩ := (Schema.exists_ofColumns_iff hnodup).mpr hnames
        exact ⟨(layout, new), Fallible.bind_eq_ok.mpr ⟨layout, hrun,
          Fallible.bind_eq_ok.mpr ⟨new, Fallible.mapError_eq_ok.mpr hnew, rfl⟩⟩⟩

/-! ## Conversions -/

theorem convertColumn_none {number : Nat} {record : List UInt8} {d : Descent}
    (h : d.source = none) :
    (empty schema).convertColumn number record d = .ok d.column.type.zeroBytes := by
  rw [convertColumn, h]

theorem convertColumn_some {number : Nat} {record bytes : List UInt8} {d : Descent} {i : Nat}
    (h : d.source = some i) :
    (empty schema).convertColumn number record d = .ok bytes ↔
      d.column.type.encode (schema.decode record i) = .ok bytes := by
  rw [convertColumn, h]
  dsimp only [empty]
  split
  · next hencode => rw [hencode, Except.ok.injEq, Except.ok.injEq]
  · next hencode =>
      rw [hencode]
      exact ⟨nofun, nofun⟩

theorem convertColumn_eq_error {number : Nat} {record : List UInt8} {d : Descent}
    {fault : MigrationFault} (h : (empty schema).convertColumn number record d = .error fault) :
    ∃ i reason, d.source = some i ∧
      d.column.type.encode (schema.decode record i) = .error reason ∧
      fault = .misfit d.column.name number reason := by
  unfold convertColumn at h
  split at h
  · cases h
  · next i hi =>
      split at h
      · cases h
      · next reason hreason =>
          cases h
          exact ⟨i, reason, hi, hreason, rfl⟩

/-- A record can be converted if and only if every value fits the type of the column that it goes
to. -/
theorem exists_convert_iff {number : Nat} {record : List UInt8} :
    (∃ r, convert schema layout number record = .ok r) ↔
      ∀ d ∈ layout, ∀ i ∈ d.source, d.column.type.Fits (schema.decode record i) := by
  have hmap : (∃ r, convert schema layout number record = .ok r) ↔
      ∃ pieces, layout.mapM ((empty schema).convertColumn number record) = .ok pieces := by
    constructor
    · rintro ⟨r, h⟩
      obtain ⟨pieces, hpieces, -⟩ := Fallible.map_eq_ok.mp h
      exact ⟨pieces, hpieces⟩
    · rintro ⟨pieces, hpieces⟩
      exact ⟨pieces.flatten, Fallible.map_eq_ok.mpr ⟨pieces, hpieces, rfl⟩⟩
  rw [hmap, Fallible.exists_mapM_iff]
  refine forall₂_congr fun d _ => ?_
  cases hsource : d.source with
  | none => simp [convertColumn_none hsource]
  | some i => simp [convertColumn_some hsource, ColumnType.exists_encode_iff]

/-- What a column of a converted record reads. -/
theorem exists_decode_convert {number : Nat} {record converted : List UInt8}
    (hnew : new.columns = columnsOf layout)
    (h : convert schema layout number record = .ok converted) {i : Nat} {d : Descent}
    (hd : layout[i]? = some d) :
    ∃ bytes, (empty schema).convertColumn number record d = .ok bytes ∧
      new.decode converted i = d.column.type.decode bytes := by
  obtain ⟨pieces, hpieces, rfl⟩ := Fallible.map_eq_ok.mp h
  obtain ⟨bytes, hbytes, hconvert⟩ := Fallible.exists_getElem?_mapM hpieces hd
  refine ⟨bytes, hconvert, Schema.decode_flatten ?_ ?_ hbytes⟩
  · rw [hnew, columnsOf, List.map_map]
    exact Fallible.map_eq_of_mapM (fun _ _ hb => length_convertColumn hb) hpieces
  · rw [hnew, columnsOf, List.getElem?_map, hd]
    rfl

/-! ## Migrations -/

variable {t t' : Table} {maxNumber : Nat}

theorem get?_eq_some_iff {number : Nat} {name : String} {v : Numeric} :
    t.get? number name = some v ↔
      ∃ i, t.schema.indexOf? name = some i ∧ t.schema.decode (t.recordOf number) i = v := by
  rw [get?, Option.map_eq_some_iff]
  rfl

/-- A stored value does not fit the type of the column that it would go to. -/
def Misfits (t : Table) (alterations : List Alteration) (number : Nat) : Prop :=
  ∃ c ∈ alterations.foldl onColumns t.schema.columns,
    ∃ old ∈ origin c.name alterations, ∃ v ∈ t.get? number old, ¬ c.type.Fits v

/-- A record can be converted if and only if none of its values misfits. -/
theorem exists_convert_iff_not_misfits {number : Nat}
    (h : target t.schema alterations = .ok (layout, new)) :
    (∃ r, convert t.schema layout number (t.recordOf number) = .ok r) ↔
      ¬ t.Misfits alterations number := by
  obtain ⟨hcolumns, hlayout, -, hsource⟩ := target_eq_ok h
  rw [exists_convert_iff, Misfits, ← hcolumns, hlayout]
  constructor
  · rintro hfits ⟨c, hc, old, hold, v, hv, hnot⟩
    obtain ⟨d, hd, rfl⟩ := List.mem_map.mp hc
    obtain ⟨i, hi, rfl⟩ := get?_eq_some_iff.mp hv
    refine hnot (hfits d hd i ?_)
    rw [(hsource d hd).1, show origin (nameOf d) alterations = some old from hold]
    exact hi
  · intro hnone d hd i hi
    by_contra hnot
    rw [(hsource d hd).1] at hi
    obtain ⟨old, hold, hi⟩ := Option.bind_eq_some_iff.mp hi
    exact hnone ⟨d.column, List.mem_map_of_mem hd, old, hold, _,
      get?_eq_some_iff.mpr ⟨i, hi, rfl⟩, hnot⟩

/-- The document number 0 has no record, and nothing misfits. -/
theorem not_misfits_zero (h : target t.schema alterations = .ok (layout, new)) :
    ¬ t.Misfits alterations 0 := by
  have hnone : t.record? 0 = none := by simp [record?, addressable]
  rw [← exists_convert_iff_not_misfits h, recordOf, hnone, Option.getD_none]
  exact ⟨_, convert_zeroRecord (columns_of_target h) 0⟩

theorem alter_eq_error_iff :
    (∃ fault, t.alter alterations maxNumber = .error fault) ↔
      AnyRefused t.schema.columns alterations ∨
        (∃ c ∈ alterations.foldl onColumns t.schema.columns, c.name = "") ∨
        ∃ number, 1 ≤ number ∧ number ≤ maxNumber ∧ t.Misfits alterations number := by
  rw [Fallible.exists_error_iff, alter_eq_ok_iff]
  constructor
  · intro hnot
    by_contra hnone
    obtain ⟨hrefused, hunnamed, hmisfits⟩ : _ ∧ _ ∧ _ := by simpa only [not_or] using hnone
    have hnames : ∀ c ∈ alterations.foldl onColumns t.schema.columns, c.name ≠ "" :=
      fun c hc hname => hunnamed ⟨c, hc, hname⟩
    obtain ⟨⟨layout, new⟩, htarget⟩ := exists_target_iff.mpr ⟨hrefused, hnames⟩
    -- the condition is about all numbers up to the greatest, the unused number 0 among them
    refine hnot ⟨layout, new, htarget, fun x hx => ?_⟩
    rw [exists_convert_iff_not_misfits htarget]
    rcases Nat.eq_zero_or_pos x with rfl | hpos
    · exact not_misfits_zero htarget
    · exact fun hx' => hmisfits ⟨x, hpos, hx, hx'⟩
  · rintro hfault ⟨layout, new, htarget, hconvert⟩
    obtain ⟨hrefused, hnames⟩ := exists_target_iff.mp ⟨_, htarget⟩
    rcases hfault with hfault | ⟨c, hc, hname⟩ | ⟨x, -, hx, hmisfits⟩
    · exact hrefused hfault
    · exact hnames c hc hname
    · exact (exists_convert_iff_not_misfits htarget).mp (hconvert x hx) hmisfits

/-- Where columns can be led to, only a stored value can make a migration fail. -/
theorem misfit_of_alter_eq_error (htarget : target t.schema alterations = .ok (layout, new))
    {fault : MigrationFault} (h : t.alter alterations maxNumber = .error fault) :
    ∃ number c old v reason, fault = .misfit c.name number reason ∧
      (1 ≤ number ∧ number ≤ maxNumber) ∧
      c ∈ alterations.foldl onColumns t.schema.columns ∧
      origin c.name alterations = some old ∧ t.get? number old = some v ∧
      c.type.encode v = .error reason := by
  obtain ⟨hcolumns, hlayout, -, hsource⟩ := target_eq_ok htarget
  obtain ⟨layout', hrun, htarget⟩ := Fallible.bind_eq_ok.mp htarget
  obtain ⟨new', hnew, htarget⟩ := Fallible.bind_eq_ok.mp htarget
  cases htarget
  unfold alter at h
  rw [show t.layout = (empty t.schema).layout from rfl, Fallible.bind_of_ok hrun,
    Fallible.bind_of_ok hnew] at h
  rcases Fallible.bind_eq_error.mp h with h | ⟨records, -, h⟩
  · obtain ⟨number, hnumber, h⟩ := Fallible.exists_of_mapM_eq_error h
    rw [convertRecord_eq, Fallible.map_eq_error, convert, Fallible.map_eq_error] at h
    obtain ⟨d, hd, h⟩ := Fallible.exists_of_mapM_eq_error h
    obtain ⟨i, reason, hi, hreason, rfl⟩ := convertColumn_eq_error h
    rw [(hsource d hd).1] at hi
    obtain ⟨old, hold, hi⟩ := Option.bind_eq_some_iff.mp hi
    obtain ⟨-, hlow, hhigh, -⟩ := mem_recorded.mp hnumber
    refine ⟨number, d.column, old, _, reason, rfl, ⟨hlow, hhigh⟩, ?_, hold,
      get?_eq_some_iff.mpr ⟨i, hi, rfl⟩, hreason⟩
    rw [← hcolumns, hlayout]
    exact List.mem_map_of_mem hd
  · cases h

/-- What a column reads after a migration. -/
theorem get?_alter (h : t.alter alterations maxNumber = .ok t') {number : Nat}
    (hnumber : number ≤ maxNumber) {c : Column} (hc : c ∈ t'.schema.columns) :
    ∃ read, t'.get? number c.name = some read ∧
      match origin c.name alterations with
      | none => read.IsZero
      | some old => ∃ v, t.get? number old = some v ∧ c.type.Carries v read := by
  obtain ⟨layout, new, htarget, rfl, -, hrecord⟩ := alter_eq_ok h
  have hconvert := hrecord number (.inl hnumber)
  obtain ⟨-, hlayout, -, hsource⟩ := target_eq_ok htarget
  obtain ⟨i, hi⟩ := List.getElem?_of_mem hc
  obtain ⟨d, hd, rfl⟩ : ∃ d, layout[i]? = some d ∧ d.column = c := by
    rw [hlayout, columnsOf, List.getElem?_map] at hi
    exact Option.map_eq_some_iff.mp hi
  -- the column reads the bytes that the old record was converted to, from where the layout says
  obtain ⟨bytes, hbytes, hread⟩ := exists_decode_convert hlayout hconvert hd
  obtain ⟨hplace, hknown⟩ := hsource d (List.mem_of_getElem? hd)
  refine ⟨_, get?_eq_some_iff.mpr ⟨i, Schema.indexOf?_eq_some_iff.mpr ⟨d.column, hi, rfl⟩, rfl⟩, ?_⟩
  rw [hread, show origin d.column.name alterations = origin (nameOf d) alterations from rfl]
  cases horigin : origin (nameOf d) alterations with
  | none =>
      rw [horigin] at hplace
      rw [convertColumn_none hplace] at hbytes
      cases hbytes
      exact d.column.type.isZero_decode_zeroBytes
  | some old =>
      obtain ⟨j, hj⟩ := hknown old horigin
      rw [horigin, Option.bind_some, hj] at hplace
      rw [convertColumn_some hplace] at hbytes
      exact ⟨_, get?_eq_some_iff.mpr ⟨j, hj, rfl⟩, ColumnType.carries_decode_encode hbytes⟩

/-- A migration fails if and only if an alteration is refused by the columns that those before it
leave, a column is left without a name, or a stored value does not fit. Else it leaves the columns
altered in order, and each reads the value of the column that it comes from, or zero. -/
theorem alter_carries_values (t : Table) (alterations : List Alteration) (maxNumber : Nat) :
    ((∃ fault, t.alter alterations maxNumber = .error fault) ↔
      AnyRefused t.schema.columns alterations ∨
        (∃ c ∈ alterations.foldl onColumns t.schema.columns, c.name = "") ∨
        ∃ number, 1 ≤ number ∧ number ≤ maxNumber ∧ t.Misfits alterations number) ∧
    ∀ t', t.alter alterations maxNumber = .ok t' →
      t'.schema.columns = alterations.foldl onColumns t.schema.columns ∧
      ∀ number ≤ maxNumber, ∀ c ∈ t'.schema.columns,
        ∃ read, t'.get? number c.name = some read ∧
          match origin c.name alterations with
          | none => read.IsZero
          | some old => ∃ v, t.get? number old = some v ∧ c.type.Carries v read := by
  refine ⟨alter_eq_error_iff, fun t' h => ⟨?_, fun number hnumber c hc => get?_alter h hnumber hc⟩⟩
  obtain ⟨layout, new, htarget, rfl, -, -⟩ := alter_eq_ok h
  exact (target_eq_ok htarget).1

/-- Columns that swap their names keep their values. -/
example : (["a", "b"].map fun name =>
    origin name [.rename "a" "c", .rename "b" "a", .rename "c" "b"]) = [some "b", some "a"] := by
  decide

/-- A column that is removed and added again is zeros. -/
example : origin "a" [.remove "a", .add "a" .int32] = none := by decide

end Table

end Concordance
