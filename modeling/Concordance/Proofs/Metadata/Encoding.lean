import Concordance.Proofs.Metadata.Table

/-!
# Tables are read back

The records of a table are written one behind the other, up to the greatest document number. Reading
leaves out records of zeros, so the table that comes back may have fewer rows; but it has the record
of every document that was written (`ofBytes?_toBytes_upTo`).
-/

namespace Concordance.Table

variable {t : Table}

/-- Records of zeros are the zero record. -/
theorem eq_zeroRecord {record : List UInt8} (hlength : record.length = t.schema.recordSize)
    (hzeros : record.any (· != 0) = false) : record = t.schema.zeroRecord := by
  rw [Schema.zeroRecord, ← hlength]
  apply List.eq_replicate_of_mem
  intro byte hbyte
  have hall := List.any_eq_false.mp hzeros byte hbyte
  simpa using hall

/-- A record of zeros is there already, so it may be left out. -/
theorem Sound.setUnlessZeros (h : t.Sound) {number : Nat} {record : List UInt8} (hnumber : number ≠ 0)
    (hlength : record.length = t.schema.recordSize)
    (hzero : t.recordOf number = t.schema.zeroRecord) :
    let t' := if record.any (· != 0) then t.setRecord number record else t
    t'.Sound ∧ t'.schema = t.schema ∧
      ∀ x, t'.recordOf x = if x = number then record else t.recordOf x := by
  dsimp only
  split
  · exact ⟨h.setRecord number hlength, schema_setRecord t number record,
      h.recordOf_setRecord hnumber hlength⟩
  · next hzeros =>
      refine ⟨h, rfl, ?_⟩
      intro x
      split
      · next hx => rw [hx, hzero, eq_zeroRecord hlength (Bool.not_eq_true _ ▸ hzeros)]
      · rfl

/-- What setting consecutive records does, on a table that has only zeros there. -/
theorem Sound.setAll (h : t.Sound) (first count : Nat) (record : Nat → List UInt8)
    (hfirst : first ≠ 0) (hlength : ∀ x, (record x).length = t.schema.recordSize)
    (hzero : ∀ x, first ≤ x → t.recordOf x = t.schema.zeroRecord) :
    let t' := t.setAll first count ((List.range' first count).flatMap record)
    t'.Sound ∧ t'.schema = t.schema ∧
      ∀ x, t'.recordOf x = if first ≤ x ∧ x < first + count then record x else t.recordOf x := by
  induction count generalizing t first with
  | zero =>
      refine ⟨h, rfl, ?_⟩
      intro x
      rw [if_neg (by omega)]
      rfl
  | succ count ih =>
      rw [List.range'_succ, List.flatMap_cons]
      unfold Table.setAll
      have htake : (record first ++ (List.range' (first + 1) count).flatMap record).take
          t.schema.recordSize = record first := List.take_left' (hlength first)
      have hdrop : (record first ++ (List.range' (first + 1) count).flatMap record).drop
          t.schema.recordSize = (List.range' (first + 1) count).flatMap record :=
        List.drop_left' (hlength first)
      rw [htake, hdrop]
      dsimp only
      obtain ⟨hsound, hschema, hrecord⟩ :=
        h.setUnlessZeros hfirst (hlength first) (hzero first (Nat.le_refl first))
      obtain ⟨hsound', hschema', hrecord'⟩ := ih hsound (first + 1) (by omega)
        (by intro x; rw [hschema]; exact hlength x)
        (by intro x hx; rw [hschema, hrecord, if_neg (by omega)]; exact hzero x (by omega))
      refine ⟨hsound', hschema'.trans hschema, ?_⟩
      intro x
      rw [hrecord', hrecord]
      by_cases hx : x = first
      · subst hx
        rw [if_neg (by omega), if_pos rfl, if_pos (by omega)]
      · rw [if_neg hx]
        by_cases hin : first + 1 ≤ x ∧ x < first + 1 + count
        · rw [if_pos hin, if_pos (by omega)]
        · rw [if_neg hin, if_neg (by omega)]

/-- Records that are set from bytes have their width, whatever the bytes are. -/
theorem Sound.setAll_bytes (h : t.Sound) (first count : Nat) {bytes : List UInt8}
    (hlength : count * t.schema.recordSize ≤ bytes.length) :
    (t.setAll first count bytes).Sound := by
  induction count generalizing t first bytes with
  | zero => exact h
  | succ count ih =>
      rw [Nat.succ_mul] at hlength
      have hrecord : (bytes.take t.schema.recordSize).length = t.schema.recordSize := by
        rw [List.length_take]
        omega
      have hrest : count * t.schema.recordSize ≤ (bytes.drop t.schema.recordSize).length := by
        rw [List.length_drop]
        omega
      unfold Table.setAll
      dsimp only
      split
      · refine ih (h.setRecord first hrecord) (first + 1) ?_
        rw [schema_setRecord]
        exact hrest
      · exact ih h (first + 1) hrest

/-- A table that is read is sound. -/
theorem sound_ofBytes? {schema : Schema} {bytes : List UInt8} (h : ofBytes? schema bytes = some t) :
    t.Sound ∧ t.schema = schema := by
  have hschema : ∀ (t : Table) (first count : Nat) (bytes : List UInt8),
      (t.setAll first count bytes).schema = t.schema := by
    intro t first count
    induction count generalizing t first with
    | zero => exact fun _ => rfl
    | succ count ih =>
        intro bytes
        unfold Table.setAll
        dsimp only
        rw [ih]
        split
        · exact schema_setRecord _ _ _
        · rfl
  unfold ofBytes? at h
  dsimp only at h
  split at h
  · cases h
    exact ⟨sound_empty schema, rfl⟩
  · split at h
    · cases h
      exact ⟨(sound_empty schema).setAll_bytes 1 _ (Nat.div_mul_le_self _ _), hschema _ _ _ _⟩
    · cases h

theorem Sound.length_toBytes (h : t.Sound) (count first : Nat) :
    ((List.range' first count).flatMap t.recordOf).length = count * t.schema.recordSize := by
  induction count generalizing first with
  | zero => simp
  | succ count ih =>
      rw [List.range'_succ, List.flatMap_cons, List.length_append, h.length_recordOf, ih,
        Nat.succ_mul, Nat.add_comm]

/-- A table is read back with the records that were written. -/
theorem Sound.ofBytes?_toBytes_upTo (h : t.Sound) (maxNumber : Nat) :
    ∃ t', ofBytes? t.schema (t.toBytes maxNumber) = some t' ∧ t'.Sound ∧ t'.schema = t.schema ∧
      ∀ x, t'.recordOf x =
        if 1 ≤ x ∧ x ≤ maxNumber then t.recordOf x else t.schema.zeroRecord := by
  unfold ofBytes? toBytes
  by_cases hsize : t.schema.recordSize = 0
  · -- records without columns are all empty
    refine ⟨empty t.schema, ?_, sound_empty t.schema, rfl, ?_⟩
    · simp [hsize]
    · intro x
      have hleft := (sound_empty t.schema).length_recordOf x
      have hright := h.length_recordOf x
      rw [show (empty t.schema).schema.recordSize = 0 from hsize] at hleft
      rw [hsize] at hright
      rw [List.eq_nil_of_length_eq_zero hleft, List.eq_nil_of_length_eq_zero hright,
        Schema.zeroRecord, hsize]
      exact (ite_self []).symm
  · have hlength := h.length_toBytes maxNumber 1
    have hall := (sound_empty t.schema).setAll 1 maxNumber t.recordOf (by decide) h.length_recordOf
      (by intro x _; exact recordOf_empty t.schema x)
    obtain ⟨hsound, hschema, hrecord⟩ := hall
    refine ⟨_, ?_, hsound, hschema, ?_⟩
    · rw [if_neg hsize, if_neg hsize]
      change (if ((List.range' 1 maxNumber).flatMap t.recordOf).length % t.schema.recordSize = 0
        then some ((empty t.schema).setAll 1
          (((List.range' 1 maxNumber).flatMap t.recordOf).length / t.schema.recordSize)
          ((List.range' 1 maxNumber).flatMap t.recordOf)) else none) = _
      rw [hlength, Nat.mul_mod_left, if_pos rfl, Nat.mul_div_cancel _ (Nat.pos_of_ne_zero hsize)]
    · intro x
      rw [hrecord, recordOf_empty]
      have hrange : (1 ≤ x ∧ x < 1 + maxNumber) ↔ (1 ≤ x ∧ x ≤ maxNumber) := by omega
      simp only [hrange]

/-- A document without a number has no record. -/
@[simp] theorem recordOf_zero (t : Table) : t.recordOf 0 = t.schema.zeroRecord := by
  have hnone : t.record? 0 = none := by simp [record?, addressable]
  rw [recordOf, hnone, Option.getD_none]

/-- A table is read back with all its records. -/
theorem Sound.ofBytes?_toBytes (h : t.Sound) {maxNumber : Nat}
    (hzero : ∀ x, maxNumber < x → t.recordOf x = t.schema.zeroRecord) :
    ∃ t', ofBytes? t.schema (t.toBytes maxNumber) = some t' ∧ t'.Sound ∧ t'.schema = t.schema ∧
      ∀ x, t'.recordOf x = t.recordOf x := by
  obtain ⟨t', hread, hsound, hschema, hrecord⟩ := h.ofBytes?_toBytes_upTo maxNumber
  refine ⟨t', hread, hsound, hschema, fun x => ?_⟩
  rw [hrecord]
  split
  · rfl
  · by_cases hx : x = 0
    · rw [hx, recordOf_zero]
    · rw [hzero x (by omega)]

end Concordance.Table
