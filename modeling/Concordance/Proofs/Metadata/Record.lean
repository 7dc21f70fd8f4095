import Concordance.Metadata.Schema
import Concordance.Proofs.Fallible
import Concordance.Proofs.Wire.Bytes

/-!
# Records

The record of a document has the width that its schema gives it (`length_buildRecord`), because
the names of the columns are distinct and every value is written in the width of its type. A record
of zeros reads zero in every column, whatever the type, and zero is converted to zero by every
change of type.
-/

namespace Concordance

/-- A number is zero in its representation. -/
def Numeric.IsZero : Numeric → Prop
  | .int n => n = 0
  | .uint n => n = 0
  | .double x => x.bits = 0

instance (v : Numeric) : Decidable v.IsZero :=
  match v with
  | .int n => inferInstanceAs (Decidable (n = 0))
  | .uint n => inferInstanceAs (Decidable (n = 0))
  | .double x => inferInstanceAs (Decidable (x.bits = 0))

namespace ColumnType

/-! ## Widths -/

theorem length_integerBytes (t : ColumnType) (n : Int) : (t.integerBytes n).length = t.size :=
  Wire.length_littleEndian _ _

theorem length_floatBytes (x : Double) : (floatBytes x).length = 4 := Wire.length_littleEndian _ _

@[simp] theorem length_zeroBytes (t : ColumnType) : t.zeroBytes.length = t.size :=
  List.length_replicate

theorem length_encode {t : ColumnType} {value : Numeric} {bytes : List UInt8}
    (h : t.encode value = .ok bytes) : bytes.length = t.size := by
  unfold encode at h
  split at h
  · next hfloat =>
      dsimp only at h
      split at h <;> cases h
      rw [length_floatBytes, hfloat]
      rfl
  · split at h
    · cases h
    · split at h <;> cases h
      exact length_integerBytes _ _

theorem length_encodeClamped (t : ColumnType) (n : Int) :
    (t.encodeClamped n).length = t.size := by
  unfold encodeClamped
  split
  · next hfloat =>
      rw [length_floatBytes, hfloat]
      rfl
  · exact length_integerBytes _ _

/-! ## Zero -/

theorem isZero_decode_zeroBytes (t : ColumnType) : (t.decode t.zeroBytes).IsZero := by
  cases t <;> decide

theorem toDouble_of_isZero {v : Numeric} (h : v.IsZero) : v.toDouble = ⟨0⟩ := by
  cases v with
  | int n =>
      cases h
      decide
  | uint n =>
      cases h
      decide
  | double x => exact congrArg Double.mk h

theorem toInt?_of_isZero {v : Numeric} (h : v.IsZero) : v.toInt? = some 0 := by
  cases v with
  | int n =>
      cases h
      rfl
  | uint n =>
      cases h
      simp [Numeric.toInt?, Number.half64]
  | double x =>
      rw [show x = ⟨0⟩ from congrArg Double.mk h]
      decide +kernel

/-- Every type can represent zero, as bytes of zeros. -/
theorem encode_of_isZero (t : ColumnType) {v : Numeric} (h : v.IsZero) :
    t.encode v = .ok t.zeroBytes := by
  unfold encode
  split
  · next hfloat =>
      have hrange : (⟨0⟩ : Double).abs ≤ greatestFloat := by decide
      have hbytes : floatBytes ⟨0⟩ = float32.zeroBytes := by decide
      rw [toDouble_of_isZero h, if_pos hrange, hbytes, hfloat]
  · have hrange : t.least ≤ 0 ∧ 0 ≤ t.greatest := by cases t <;> decide
    rw [toInt?_of_isZero h]
    dsimp only
    rw [if_pos hrange, integerBytes, Int.zero_emod, Int.toNat_zero, Wire.littleEndian_zero]
    rfl

end ColumnType

namespace Schema

/-! ## Columns -/

theorem distinct_of_firstAfter_eq_none {seen : List String} {columns : List Column}
    (h : ColumnsFault.firstAfter seen columns = none) :
    (columns.map (·.name)).Nodup ∧ ∀ c ∈ columns, c.name ∉ seen := by
  induction columns generalizing seen with
  | nil => simp
  | cons c rest ih =>
      unfold ColumnsFault.firstAfter at h
      split at h
      · cases h
      · split at h
        · cases h
        · next hfresh =>
            obtain ⟨hdistinct, hunseen⟩ := ih h
            refine ⟨List.nodup_cons.mpr ⟨fun hmem => ?_, hdistinct⟩, fun d hd => ?_⟩
            · obtain ⟨d, hd, hname⟩ := List.mem_map.mp hmem
              exact hunseen d hd (by simp [hname])
            · rcases List.mem_cons.mp hd with rfl | hd
              · exact hfresh
              · exact fun hseen => hunseen d hd (List.mem_append_left _ hseen)

/-- The names of the columns are distinct. -/
theorem distinct (s : Schema) : (s.columns.map (·.name)).Nodup :=
  (distinct_of_firstAfter_eq_none s.valid).1

/-- A column is found by its name. -/
theorem find?_name {columns : List Column} (h : (columns.map (·.name)).Nodup) {c : Column}
    (hc : c ∈ columns) : columns.find? (·.name == c.name) = some c := by
  induction columns with
  | nil => cases hc
  | cons d rest ih =>
      obtain ⟨hd, hrest⟩ := List.nodup_cons.mp h
      rcases List.mem_cons.mp hc with rfl | hc
      · simp
      · have hne : d.name ≠ c.name := fun heq => hd (List.mem_map.mpr ⟨c, hc, heq.symm⟩)
        rw [List.find?_cons_of_neg (by simpa using hne)]
        exact ih hrest hc

/-! ## The width of a record -/

theorem length_flatMap_columns (columns : List Column) (bytes : Column → List UInt8)
    (h : ∀ c ∈ columns, (bytes c).length = c.type.size) :
    (columns.flatMap bytes).length = Number.total (columns.map (·.type.size)) := by
  induction columns with
  | nil => rfl
  | cons c rest ih =>
      rw [List.flatMap_cons, List.length_append, h c List.mem_cons_self,
        ih fun d hd => h d (List.mem_cons_of_mem _ hd)]
      rfl

theorem length_encodeAssigned {s : Schema} {name : String} {value : Numeric}
    {e : String × List UInt8} (h : s.encodeAssigned name value = .ok e) :
    e.1 = name ∧ ∃ c, s.columns.find? (·.name == name) = some c ∧ e.2.length = c.type.size := by
  unfold encodeAssigned at h
  split at h
  · cases h
  · next c hfind =>
      split at h
      · cases h
      · split at h
        · next bytes hbytes =>
            cases h
            exact ⟨rfl, c, hfind, ColumnType.length_encode hbytes⟩
        · cases h

theorem mem_of_lookup_eq_some {l : List (String × List UInt8)} {name : String}
    {bytes : List UInt8} (h : l.lookup name = some bytes) : (name, bytes) ∈ l := by
  induction l with
  | nil => cases h
  | cons e rest ih =>
      obtain ⟨x, v⟩ := e
      rw [List.lookup_cons] at h
      split at h
      · next heq =>
          cases h
          cases eq_of_beq heq
          exact List.mem_cons_self
      · exact List.mem_cons_of_mem _ (ih h)

/-- What is encoded for a column has its width. -/
theorem length_of_assigned {s : Schema} {values : List (String × Numeric)}
    {assigned : List (String × List UInt8)}
    (h : values.mapM (fun e => s.encodeAssigned e.1 e.2) = .ok assigned) {c : Column}
    (hc : c ∈ s.columns) {bytes : List UInt8} (hlookup : assigned.lookup c.name = some bytes) :
    bytes.length = c.type.size := by
  -- the value was encoded for a column of this name, and there is only one
  have hmem := mem_of_lookup_eq_some hlookup
  obtain ⟨⟨name, value⟩, -, hencode⟩ := Fallible.exists_of_mem_mapM h hmem
  obtain ⟨hname, c', hfind, hlength⟩ := length_encodeAssigned hencode
  rw [show name = c.name from hname.symm, find?_name s.distinct hc] at hfind
  cases hfind
  exact hlength

theorem length_columnBytes {s : Schema} {doc : Document} {assigned : List (String × List UInt8)}
    (h : doc.metadata.toList.mapM (fun e => s.encodeAssigned e.1 e.2) = .ok assigned) :
    ∀ c ∈ s.columns, (columnBytes doc assigned c).length = c.type.size := by
  intro c hc
  unfold columnBytes
  split
  · exact ColumnType.length_encodeClamped _ _
  · cases hlookup : assigned.lookup c.name with
    | none => simp
    | some bytes => exact length_of_assigned h hc hlookup

/-- A record fills its row. -/
theorem length_buildRecord {s : Schema} {doc : Document} {record : List UInt8}
    (h : s.buildRecord doc = .ok record) : record.length = s.recordSize := by
  obtain ⟨assigned, hassigned, hrecord⟩ := Fallible.bind_eq_ok.mp h
  cases hrecord
  exact length_flatMap_columns _ _ (length_columnBytes hassigned)

@[simp] theorem length_zeroRecord (s : Schema) : s.zeroRecord.length = s.recordSize :=
  List.length_replicate

/-! ## Zero records -/

/-- A column lies inside its record. -/
theorem offset_add_size_le {s : Schema} {index : Nat} {c : Column}
    (h : s.columns[index]? = some c) : s.offset index + c.type.size ≤ s.recordSize := by
  unfold offset recordSize
  revert h
  generalize s.columns = columns
  intro h
  induction columns generalizing index with
  | nil => simp at h
  | cons d rest ih =>
      cases index with
      | zero =>
          cases h
          simp [Number.total]
      | succ index =>
          have := ih (by simpa using h)
          simp only [List.take_succ_cons, List.map_cons, Number.total]
          omega

/-- The bytes of a column in a record of zeros. -/
theorem column_zeroRecord {s : Schema} {index : Nat} {c : Column}
    (h : s.columns[index]? = some c) :
    (s.zeroRecord.drop (s.offset index)).take c.type.size = c.type.zeroBytes := by
  have := offset_add_size_le h
  rw [zeroRecord, ColumnType.zeroBytes, List.drop_replicate, List.take_replicate]
  congr 1
  omega

theorem decode_zeroRecord {s : Schema} {index : Nat} {c : Column}
    (h : s.columns[index]? = some c) :
    s.decode s.zeroRecord index = c.type.decode c.type.zeroBytes := by
  rw [decode, h, ← column_zeroRecord h]

/-- A record of zeros reads zero in every column. -/
theorem isZero_decode_zeroRecord (s : Schema) (index : Nat) :
    (s.decode s.zeroRecord index).IsZero := by
  cases h : s.columns[index]? with
  | none =>
      rw [decode, h]
      rfl
  | some c =>
      rw [decode_zeroRecord h]
      exact c.type.isZero_decode_zeroBytes

end Schema

end Concordance
