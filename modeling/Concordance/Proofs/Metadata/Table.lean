import Concordance.Metadata.Table
import Concordance.Proofs.Metadata.Record
import Concordance.Proofs.SortedMap

/-!
# What a table holds

A table is read through one function, `recordOf`: the record of a document, zeros if it has none.
The rows of a `Sound` table have the width of a record, and only allocated documents have one, so
every record that is set stays inside its row: `recordOf_setRecord` and `recordOf_clearRecord` say
that setting the record of one document leaves all others as they are.
-/

namespace Concordance.Table

/-- The record of a document, zeros if it has none. -/
def recordOf (t : Table) (number : Nat) : List UInt8 :=
  (t.record? number).getD t.schema.zeroRecord

theorem get_eq_decode (t : Table) (number index : Nat) :
    t.get number index = t.schema.decode (t.recordOf number) index := rfl

/-- The rows have the width of a record and lie in allocated blocks. -/
def Sound (t : Table) : Prop :=
  ∀ number row, t.rows.get? number = some row →
    row.length = t.schema.recordSize ∧ t.addressable number = true ∧ blockOf number < t.blocks

theorem sound_empty (schema : Schema) : (empty schema).Sound := by
  intro number row h
  cases h

theorem recordOf_empty (schema : Schema) (number : Nat) :
    (empty schema).recordOf number = schema.zeroRecord := by
  have hnone : (empty schema).record? number = none := by simp [record?, empty]
  rw [recordOf, hnone]
  rfl

variable {t : Table}

/-- In a sound table, the record of a document is its row. -/
theorem Sound.recordOf_eq_row (h : t.Sound) (number : Nat) : t.recordOf number = t.row number := by
  unfold recordOf record?
  split
  · rfl
  · next hout =>
      rw [Bool.and_eq_true, decide_eq_true_eq] at hout
      unfold row
      cases hget : t.rows.get? number with
      | none => rw [SortedMap.getD_of_none hget, Option.getD_none]
      | some r => exact absurd (h number r hget).2 hout

theorem Sound.length_row (h : t.Sound) (number : Nat) :
    (t.row number).length = t.schema.recordSize := by
  unfold row
  cases hget : t.rows.get? number with
  | none => rw [SortedMap.getD_of_none hget, Schema.length_zeroRecord]
  | some r => rw [SortedMap.getD_of_some hget, (h number r hget).1]

theorem Sound.length_recordOf (h : t.Sound) (number : Nat) :
    (t.recordOf number).length = t.schema.recordSize := by
  rw [h.recordOf_eq_row, h.length_row]

/-! ## Setting a record -/

/-- A record fills its row and goes no further. -/
theorem overwrite_record (t : Table) (number rows : Nat) {record : List UInt8}
    (hlength : record.length = t.schema.recordSize) (hsize : t.schema.recordSize ≠ 0)
    (hrow : (t.row number).length = t.schema.recordSize) :
    t.overwrite number (rows + 1) record = { t with rows := t.rows.insert number record } := by
  have hne : record.isEmpty = false := by
    cases record with
    | nil => exact absurd hlength.symm hsize
    | cons b rest => rfl
  have htake : record.take t.schema.recordSize = record :=
    List.take_of_length_le (Nat.le_of_eq hlength)
  have hdrop : (t.row number).drop record.length = [] :=
    List.drop_of_length_le (by omega)
  have hrest : record.drop t.schema.recordSize = [] :=
    List.drop_of_length_le (Nat.le_of_eq hlength)
  rw [overwrite, if_neg (by simp [hne])]
  dsimp only
  rw [htake, hdrop, hrest, List.append_nil]
  cases rows <;> simp [overwrite]

/-- Setting a record of the right width: the blocks grow to the document, its row is the record. -/
theorem Sound.setRecord_eq (h : t.Sound) {number : Nat} {record : List UInt8}
    (hlength : record.length = t.schema.recordSize) (haddr : t.addressable number = true) :
    t.setRecord number record =
      { t with
        blocks := max t.blocks (blockOf number + 1)
        rows := t.rows.insert number record } := by
  have hsize : t.schema.recordSize ≠ 0 := by
    simp only [addressable, Bool.and_eq_true, decide_eq_true_eq] at haddr
    exact haddr.2
  -- the block has room for this record at least
  have hpos : 0 < blockRows - (number - 1) % blockRows := by
    have := Nat.mod_lt (number - 1) (show 0 < blockRows by decide)
    omega
  obtain ⟨rows, hrows⟩ := Nat.exists_eq_succ_of_ne_zero (Nat.pos_iff_ne_zero.mp hpos)
  rw [setRecord, if_pos haddr, hrows]
  exact overwrite_record _ number rows hlength hsize (h.length_row number)

@[simp] theorem schema_overwrite (t : Table) (number rows : Nat) (bytes : List UInt8) :
    (t.overwrite number rows bytes).schema = t.schema := by
  induction rows generalizing t number bytes with
  | zero => rfl
  | succ rows ih =>
      rw [overwrite]
      split
      · rfl
      · exact ih _ _ _

@[simp] theorem schema_setRecord (t : Table) (number : Nat) (record : List UInt8) :
    (t.setRecord number record).schema = t.schema := by
  unfold setRecord
  split
  · exact schema_overwrite _ _ _ _
  · rfl

@[simp] theorem schema_clearRecord (t : Table) (number : Nat) :
    (t.clearRecord number).schema = t.schema := by
  unfold clearRecord
  split
  · exact schema_setRecord _ _ _
  · rfl

theorem Sound.setRecord (h : t.Sound) (number : Nat) {record : List UInt8}
    (hlength : record.length = t.schema.recordSize) : (t.setRecord number record).Sound := by
  by_cases haddr : t.addressable number = true
  · rw [h.setRecord_eq hlength haddr]
    intro x row hrow
    rw [SortedMap.get?_insert] at hrow
    by_cases hx : x = number
    · rw [if_pos hx] at hrow
      cases hrow
      refine ⟨hlength, hx ▸ haddr, ?_⟩
      show blockOf x < max t.blocks (blockOf number + 1)
      rw [hx]
      omega
    · rw [if_neg hx] at hrow
      obtain ⟨hlen, haddrx, hblock⟩ := h x row hrow
      refine ⟨hlen, haddrx, ?_⟩
      show blockOf x < max t.blocks (blockOf number + 1)
      omega
  · rw [Table.setRecord, if_neg haddr]
    exact h

/-- Setting the record of a document leaves all others as they are. -/
theorem Sound.recordOf_setRecord (h : t.Sound) {number : Nat} (hnumber : number ≠ 0)
    {record : List UInt8} (hlength : record.length = t.schema.recordSize) (x : Nat) :
    (t.setRecord number record).recordOf x = if x = number then record else t.recordOf x := by
  by_cases haddr : t.addressable number = true
  · rw [(h.setRecord number hlength).recordOf_eq_row, h.recordOf_eq_row,
      h.setRecord_eq hlength haddr, row, SortedMap.getD, SortedMap.get?_insert]
    split <;> rfl
  · -- only a record without columns is not addressable here
    have hsize : t.schema.recordSize = 0 := by
      simp only [addressable, Bool.and_eq_true, decide_eq_true_eq, not_and,
        Decidable.not_not] at haddr
      exact haddr hnumber
    -- without columns all records are empty
    have hnil : ∀ r : List UInt8, r.length = t.schema.recordSize → r = [] := fun r hr =>
      List.eq_nil_of_length_eq_zero (hr.trans hsize)
    rw [Table.setRecord, if_neg haddr, hnil record hlength, hnil _ (h.length_recordOf x)]
    split <;> rfl

theorem Sound.clearRecord (h : t.Sound) (number : Nat) : (t.clearRecord number).Sound := by
  unfold Table.clearRecord
  split
  · exact h.setRecord number (Schema.length_zeroRecord _)
  · exact h

/-- Clearing the record of a document leaves zeros there, and all others as they are. -/
theorem Sound.recordOf_clearRecord (h : t.Sound) (number x : Nat) :
    (t.clearRecord number).recordOf x =
      if x = number then t.schema.zeroRecord else t.recordOf x := by
  unfold Table.clearRecord
  split
  · next hsome =>
      have hnumber : number ≠ 0 := by
        rintro rfl
        simp [record?, addressable] at hsome
      exact h.recordOf_setRecord hnumber (Schema.length_zeroRecord _) x
  · next hnone =>
      by_cases hx : x = number
      · rw [if_pos hx, hx, recordOf, Option.not_isSome_iff_eq_none.mp hnone, Option.getD_none]
      · rw [if_neg hx]

/-- A document behind the allocated blocks has a record of zeros. -/
theorem recordOf_of_blocks_le {number : Nat} (h : t.blocks * blockRows < number) :
    t.recordOf number = t.schema.zeroRecord := by
  have hblock : t.blocks ≤ blockOf number := by
    unfold blockOf
    rw [Nat.le_div_iff_mul_le (by decide)]
    omega
  rw [recordOf, record?, if_neg, Option.getD_none]
  simp only [Bool.and_eq_true, decide_eq_true_eq]
  omega

end Concordance.Table
