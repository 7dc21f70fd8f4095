import Concordance.Proofs.Metadata.Slots
import Mathlib.Order.Bounds.Basic

/-!
# What the record of a document says

A document is refused if it assigns a column that is not there, an aggregated one, or a value that
the column cannot hold (`Schema.Refuses`); any other document has a record. A column of the record
reads what the document says about this column alone: the number of the aggregate, taken into the
range of the type, the assigned value, or zero (`Column.Reads`).

The number of an aggregate is said by the positions at which search terms of its type occur, apart
from the way it is computed (`Aggregate.IsValue`).
-/

namespace Concordance

/-! ## Aggregates -/

/-- A search term of the type of an aggregate stands at a position. -/
def Aggregate.OccursAt (a : Aggregate) (doc : Document) (position : Nat) : Prop :=
  ∃ o ∈ doc.search, o.type = a.type ∧ o.position = position

/-- The number that an aggregate is for a document; 0 if no search term has its type. -/
def Aggregate.IsValue (a : Aggregate) (doc : Document) (n : Nat) : Prop :=
  match a.kind with
  | .count => n = doc.search.countP (·.type = a.type)
  | .minPosition =>
    IsLeast {p | a.OccursAt doc p} n ∨ (∀ p, ¬ a.OccursAt doc p) ∧ n = 0
  | .maxPosition =>
    IsGreatest {p | a.OccursAt doc p} n ∨ (∀ p, ¬ a.OccursAt doc p) ∧ n = 0
  | .nextPosition =>
    (∃ p, IsGreatest {p | a.OccursAt doc p} p ∧ n = p + 1) ∨ (∀ p, ¬ a.OccursAt doc p) ∧ n = 0

namespace Aggregate

variable {a : Aggregate} {doc : Document}

/-- The positions of the search terms of a type. -/
theorem mem_positions {p : Nat} :
    p ∈ (doc.search.filter (·.type == a.type)).map (·.position) ↔ a.OccursAt doc p := by
  simp [OccursAt, and_assoc]

theorem min?_positions :
    match ((doc.search.filter (·.type == a.type)).map (·.position)).min? with
    | some n => IsLeast {p | a.OccursAt doc p} n
    | none => ∀ p, ¬ a.OccursAt doc p := by
  split
  · next n hn =>
      obtain ⟨hmem, hle⟩ := List.min?_eq_some_iff.mp hn
      exact ⟨mem_positions.mp hmem, fun p hp => hle p (mem_positions.mpr hp)⟩
  · next hnone =>
      intro p hp
      have hmem := mem_positions.mpr hp
      rw [List.min?_eq_none_iff.mp hnone] at hmem
      cases hmem

theorem max?_positions :
    match ((doc.search.filter (·.type == a.type)).map (·.position)).max? with
    | some n => IsGreatest {p | a.OccursAt doc p} n
    | none => ∀ p, ¬ a.OccursAt doc p := by
  split
  · next n hn =>
      obtain ⟨hmem, hle⟩ := List.max?_eq_some_iff.mp hn
      exact ⟨mem_positions.mp hmem, fun p hp => hle p (mem_positions.mpr hp)⟩
  · next hnone =>
      intro p hp
      have hmem := mem_positions.mpr hp
      rw [List.max?_eq_none_iff.mp hnone] at hmem
      cases hmem

theorem isValue_compute (a : Aggregate) (doc : Document) : a.IsValue doc (a.compute doc) := by
  have hmin := @min?_positions a doc
  have hmax := @max?_positions a doc
  obtain ⟨kind, type⟩ := a
  cases kind with
  | count =>
      simp only [IsValue, compute, List.length_map, List.countP_eq_length_filter]
      rfl
  | minPosition =>
      simp only [IsValue, compute]
      split at hmin
      · next n hn => exact .inl (by rw [hn]; exact hmin)
      · next hn => exact .inr ⟨hmin, by rw [hn]; rfl⟩
  | maxPosition =>
      simp only [IsValue, compute]
      split at hmax
      · next n hn => exact .inl (by rw [hn]; exact hmax)
      · next hn => exact .inr ⟨hmax, by rw [hn]; rfl⟩
  | nextPosition =>
      simp only [IsValue, compute]
      split at hmax
      · next n hn => exact .inl ⟨n, hmax, by rw [hn]; rfl⟩
      · next hn => exact .inr ⟨hmax, by rw [hn]; rfl⟩

end Aggregate

/-- A column of the type reads a whole number taken into the range of the type, or the nearest single
precision float. -/
def ColumnType.Clamps (t : ColumnType) (n : Int) (read : Numeric) : Prop :=
  if t = .float32 then read = .double (.ofSingle (Double.ofInt n).toSingle)
  else read.integer? = some (max t.least (min n t.greatest))

theorem ColumnType.clamps_decode (t : ColumnType) (n : Int) :
    t.Clamps n (t.decode (t.encodeClamped n)) := by
  unfold Clamps encodeClamped
  split
  · next hfloat =>
      rw [hfloat]
      exact decode_floatBytes _
  · next hint =>
      have hrange : t.least ≤ t.greatest := by cases t <;> decide
      exact integer?_decode_integerBytes hint (by omega)

/-! ## What a record says -/

/-- The bytes that a document gives a column. -/
def Column.Encodes (c : Column) (doc : Document) (bytes : List UInt8) : Prop :=
  match c.aggregate with
  | some a => bytes = c.type.encodeClamped (a.compute doc)
  | none =>
    match doc.metadata.get? c.name with
    | some value => c.type.encode value = .ok bytes
    | none => bytes = c.type.zeroBytes

/-- The value that a document gives a column: the number of its aggregate, the assigned value or
zero. -/
def Column.Reads (c : Column) (doc : Document) (read : Numeric) : Prop :=
  match c.aggregate with
  | some a => ∃ n, a.IsValue doc n ∧ c.type.Clamps n read
  | none =>
    match doc.metadata.get? c.name with
    | some value => c.type.Carries value read
    | none => read.IsZero

theorem Column.Encodes.reads {c : Column} {doc : Document} {bytes : List UInt8}
    (h : c.Encodes doc bytes) : c.Reads doc (c.type.decode bytes) := by
  unfold Encodes at h
  unfold Reads
  split at h
  · next a _ =>
      rw [h]
      exact ⟨_, a.isValue_compute doc, c.type.clamps_decode _⟩
  · split at h
    · exact ColumnType.carries_decode_encode h
    · rw [h]
      exact c.type.isZero_decode_zeroBytes

namespace Schema

variable {s : Schema} {doc : Document} {assigned : List (String × List UInt8)}

/-- A document assigns a column that is not there, an aggregated one, or a value that the column
cannot hold. -/
def Refuses (s : Schema) (doc : Document) : Prop :=
  ∃ name value, doc.metadata.get? name = some value ∧
    ((∀ c ∈ s.columns, c.name ≠ name) ∨
      ∃ c ∈ s.columns, c.name = name ∧ (c.aggregate.isSome ∨ ¬ c.type.Fits value))

theorem exists_encodeAssigned_iff {name : String} {value : Numeric} :
    (∃ e, s.encodeAssigned name value = .ok e) ↔
      ∃ c ∈ s.columns, c.name = name ∧ c.aggregate = none ∧ c.type.Fits value := by
  unfold encodeAssigned
  constructor
  · rintro ⟨e, h⟩
    split at h
    · cases h
    · next c hfind =>
        have hname := List.find?_some hfind
        split at h
        · cases h
        · next hplain =>
            refine ⟨c, List.mem_of_find?_eq_some hfind, by simpa using hname,
              Option.not_isSome_iff_eq_none.mp hplain, (c.type.exists_encode_iff value).mp ?_⟩
            split at h
            · next bytes hbytes => exact ⟨bytes, hbytes⟩
            · cases h
  · rintro ⟨c, hc, rfl, hplain, hfits⟩
    obtain ⟨bytes, hbytes⟩ := (c.type.exists_encode_iff value).mpr hfits
    rw [find?_name s.distinct hc]
    simp [hplain, hbytes]

theorem buildRecord_eq_error_iff :
    (∃ fault, s.buildRecord doc = .error fault) ↔ s.Refuses doc := by
  have hok : (∃ record, s.buildRecord doc = .ok record) ↔
      ∃ assigned, doc.metadata.toList.mapM (fun e => s.encodeAssigned e.1 e.2) = .ok assigned := by
    constructor
    · rintro ⟨record, h⟩
      obtain ⟨assigned, hassigned, -⟩ := Fallible.bind_eq_ok.mp h
      exact ⟨assigned, hassigned⟩
    · rintro ⟨assigned, hassigned⟩
      exact ⟨_, Fallible.bind_eq_ok.mpr ⟨assigned, hassigned, rfl⟩⟩
  rw [Fallible.exists_error_iff, hok, Fallible.exists_mapM_iff]
  constructor
  · intro hnot
    obtain ⟨⟨name, value⟩, h⟩ := not_forall.mp hnot
    obtain ⟨hvalue, hnone⟩ := Classical.not_imp.mp h
    rw [exists_encodeAssigned_iff] at hnone
    refine ⟨name, value, SortedMap.mem_toList.mp hvalue, ?_⟩
    by_cases hc : ∃ c ∈ s.columns, c.name = name
    · obtain ⟨c, hc, hname⟩ := hc
      refine .inr ⟨c, hc, hname, ?_⟩
      by_contra hgood
      obtain ⟨hplain, hfits⟩ := not_or.mp hgood
      exact hnone ⟨c, hc, hname, Option.not_isSome_iff_eq_none.mp hplain, not_not.mp hfits⟩
    · exact .inl fun c hmem hname => hc ⟨c, hmem, hname⟩
  · rintro ⟨name, value, hvalue, hbad⟩ hall
    obtain ⟨c, hc, hname, hplain, hfits⟩ :=
      exists_encodeAssigned_iff.mp (hall (name, value) (SortedMap.mem_toList.mpr hvalue))
    rcases hbad with hunknown | ⟨d, hd, hdname, hbad⟩
    · exact hunknown c hc hname
    · obtain rfl : d = c := List.inj_on_of_nodup_map s.distinct hd hc (hdname.trans hname.symm)
      rcases hbad with haggregated | hmisfit
      · simp [hplain] at haggregated
      · exact hmisfit hfits

/-- What is encoded for a column are the bytes of the assigned value. -/
theorem encode_of_encodeAssigned {c : Column} (hc : c ∈ s.columns) {value : Numeric} {name : String}
    {bytes : List UInt8} (h : s.encodeAssigned c.name value = .ok (name, bytes)) :
    c.type.encode value = .ok bytes := by
  rw [encodeAssigned, find?_name s.distinct hc] at h
  dsimp only at h
  split at h
  · cases h
  · split at h
    · next hencode =>
        cases h
        exact hencode
    · cases h

/-- The bytes of a column are those that the document gives it. -/
theorem encodes_columnBytes
    (h : doc.metadata.toList.mapM (fun e => s.encodeAssigned e.1 e.2) = .ok assigned) {c : Column}
    (hc : c ∈ s.columns) : c.Encodes doc (columnBytes doc assigned c) := by
  unfold Column.Encodes columnBytes
  cases c.aggregate with
  | some a => rfl
  | none =>
      cases hlookup : assigned.lookup c.name with
      | some bytes =>
          have hmem := mem_of_lookup_eq_some hlookup
          obtain ⟨⟨name, value⟩, hvalue, hencode⟩ := Fallible.exists_of_mem_mapM h hmem
          obtain rfl : c.name = name := (length_encodeAssigned hencode).1
          rw [SortedMap.mem_toList.mp hvalue]
          exact encode_of_encodeAssigned hc hencode
      | none =>
          cases hget : doc.metadata.get? c.name with
          | none => rfl
          | some value =>
              -- an assigned value would have been encoded
              obtain ⟨⟨name, bytes⟩, hmem, hencode⟩ :=
                Fallible.exists_mem_of_mapM h (SortedMap.mem_toList (e := (c.name, value)).mpr hget)
              obtain rfl : name = c.name := (length_encodeAssigned hencode).1
              have hne := List.lookup_eq_none_iff.mp hlookup _ hmem
              simp at hne

/-- A document has no record if and only if it assigns a column that is not there, an aggregated one
or a value that does not fit. Else its record, built in place, fills its row, and each column has
its own slot with the bytes of its own value, and reads that value. -/
theorem buildRecord_exact (s : Schema) (doc : Document) :
    s.recordSteps doc = (s.buildRecord doc).mapError .refused ∧
    ((∃ fault, s.buildRecord doc = .error fault) ↔ s.Refuses doc) ∧
    ∀ record, s.buildRecord doc = .ok record →
      record.length = s.recordSize ∧
      ∀ i c, s.columns[i]? = some c →
        ∃ bytes, c.Encodes doc bytes ∧
          bytesIn? record (s.offset i) (s.offset (i + 1)) = some bytes ∧
          c.Reads doc (s.decode record i) := by
  refine ⟨recordSteps_eq s doc, buildRecord_eq_error_iff, fun record hrecord => ?_⟩
  refine ⟨length_buildRecord hrecord, fun i c hc => ?_⟩
  obtain ⟨assigned, hassigned, hrecord⟩ := Fallible.bind_eq_ok.mp hrecord
  cases hrecord
  have hencodes := encodes_columnBytes hassigned (List.mem_of_getElem? hc)
  have hslice := bytesIn?_flatMap hc (length_columnBytes hassigned)
  refine ⟨_, hencodes, by rw [offset_succ hc]; exact hslice, ?_⟩
  rw [decode_of_bytesIn? hc hslice]
  exact hencodes.reads

/-- A position behind the range of its column is taken to the end of the range; the column beside it
keeps its sign. -/
example :
    (⟨[⟨"last", .uint8, some ⟨.maxPosition, "word"⟩⟩, ⟨"cross", .int8, none⟩], rfl⟩ : Schema).buildRecord
        { metadata := (∅ : SortedMap String Numeric).insert "cross" (.int (-3))
          search := [⟨"word", "x", 300⟩] } = .ok [255, 253] := by
  rfl

end Schema

end Concordance
