import Concordance.Proofs.Metadata.Encoding
import Concordance.Proofs.Metadata.Slots
import Mathlib.Data.List.Induction

/-!
# Tables laid out in blocks of bytes

The records of a table lie in blocks of bytes, `blockRows` records in each, all blocks up to the
last one in use. A document is found by its block and by the place of its row in there; every look at
such a place is checked here, and there is no answer if one fails.

- `Table.layOut` lays a table out. Reading and writing it by places is reading and writing the
  table, and no place is ever missed (`record?_layOut`, `setRecord?_layOut`).
- After any changes a document reads the last record that was set for it, or zeros, whatever happened
  to others, and a table that is written out and read again reads the same (`table_is_map`).
-/

namespace Concordance

open Table (blockRows)

/-- Records in blocks of bytes. -/
structure Blocks where
  schema : Schema
  blocks : List (List UInt8) := []

namespace Blocks

/-- A block without records. -/
def zeroBlock (b : Blocks) : List UInt8 := List.replicate (blockRows * b.schema.recordSize) 0

/-- The block of a document, and the place in it where its row starts. -/
def locate? (b : Blocks) (number : Nat) : Option (Nat × Nat) :=
  if number = 0 ∨ b.schema.recordSize = 0 then none
  else some ((number - 1) / blockRows, (number - 1) % blockRows * b.schema.recordSize)

/-- The record of a document, if its block is there. -/
def record? (b : Blocks) (number : Nat) : Option (Option (List UInt8)) :=
  match b.locate? number with
  | none => some none
  | some (block, start) =>
    match b.blocks[block]? with
    | none => some none
    | some bytes => (bytesIn? bytes start (start + b.schema.recordSize)).map some

/-- The value of a column of a document; without a record it is read from zeros. -/
def get? (b : Blocks) (number index : Nat) : Option Numeric := do
  let c ← b.schema.columns[index]?
  match ← b.record? number with
  | some record =>
    let (start, stop) ← b.schema.slot? index
    return c.type.decode (← bytesIn? record start stop)
  | none => return c.type.decode [0, 0, 0, 0]

/-- Writes bytes where the row of a document starts, behind as many new blocks as it takes. -/
def setRecord? (b : Blocks) (number : Nat) (record : List UInt8) : Option Blocks :=
  match b.locate? number with
  | none => some b
  | some (block, start) => do
    let blocks := b.blocks ++ List.replicate (block + 1 - b.blocks.length) b.zeroBlock
    let bytes ← splice? (← blocks[block]?) start (start + record.length) record
    return { b with blocks := blocks.set block bytes }

/-- Writes zeros over the record of a document, if it has one. -/
def clearRecord? (b : Blocks) (number : Nat) : Option Blocks := do
  match ← b.record? number with
  | some _ => b.setRecord? number b.schema.zeroRecord
  | none => return b

/-- The records of the documents up to a number, one behind the other. -/
def toBytes? (b : Blocks) (maxNumber : Nat) : Option (List UInt8) := do
  let records ← (List.range' 1 maxNumber).mapM b.record?
  return (records.map (·.getD b.schema.zeroRecord)).flatten

/-- Sets the records of consecutive documents; records of zeros are left out. -/
def setAll? (b : Blocks) (number : Nat) : (records : Nat) → List UInt8 → Option Blocks
  | 0, _ => some b
  | records + 1, bytes => do
    let record := bytes.take b.schema.recordSize
    let b' ← if record.any (· != 0) then b.setRecord? number record else some b
    setAll? b' (number + 1) records (bytes.drop b.schema.recordSize)

/-- The blocks of the records of consecutive documents; none if the bytes are no whole number of
records. -/
def ofBytes? (schema : Schema) (bytes : List UInt8) : Option (Option Blocks) :=
  if schema.recordSize = 0 then some (some { schema })
  else if bytes.length % schema.recordSize = 0 then
    (setAll? { schema } 1 (bytes.length / schema.recordSize) bytes).map some
  else some none

end Blocks

namespace Table

variable {t : Table}

/-- The bytes of a block: the rows of its documents. -/
def blockBytes (t : Table) (block : Nat) : List UInt8 :=
  (List.range' (block * blockRows + 1) blockRows).flatMap t.row

/-- The blocks of a table. -/
def layOut (t : Table) : Blocks := ⟨t.schema, (List.range t.blocks).map t.blockBytes⟩

/-! ## Rows in a block -/

theorem Sound.length_flatMap_row (h : t.Sound) (first count : Nat) :
    ((List.range' first count).flatMap t.row).length = count * t.schema.recordSize := by
  rw [← funext h.recordOf_eq_row]
  exact h.length_toBytes count first

/-- Consecutive numbers, those in front of one of them and those behind it. -/
theorem range'_split {first count j : Nat} (h : j < count) :
    List.range' first count =
      List.range' first j ++ (first + j) :: List.range' (first + j + 1) (count - 1 - j) := by
  have hcount : count = j + (count - 1 - j + 1) := by omega
  conv => lhs; rw [hcount, ← List.range'_append_1, List.range'_succ]

/-- The documents of a block in front of one of them. -/
def rowsBefore (number : Nat) : List Nat :=
  List.range' (blockOf number * blockRows + 1) ((number - 1) % blockRows)

/-- The documents of a block behind one of them. -/
def rowsBehind (number : Nat) : List Nat :=
  List.range' (number + 1) (blockRows - 1 - (number - 1) % blockRows)

/-- The bytes of a block, cut at a row. -/
theorem blockBytes_blockOf (t : Table) {number : Nat} (hnumber : number ≠ 0) :
    t.blockBytes (blockOf number) =
      (rowsBefore number).flatMap t.row ++ t.row number ++ (rowsBehind number).flatMap t.row := by
  have hdivision := Nat.div_add_mod (number - 1) blockRows
  have hplace : blockOf number * blockRows + 1 + (number - 1) % blockRows = number := by
    rw [Nat.mul_comm] at hdivision
    unfold blockOf
    omega
  have hmod : (number - 1) % blockRows < blockRows := Nat.mod_lt _ (by decide)
  rw [blockBytes, range'_split hmod, hplace, List.flatMap_append, List.flatMap_cons,
    ← List.append_assoc]
  rfl

theorem Sound.length_rowsBefore (h : t.Sound) (number : Nat) :
    ((rowsBefore number).flatMap t.row).length =
      (number - 1) % blockRows * t.schema.recordSize :=
  h.length_flatMap_row _ _

/-- A block does not change with the rows of other blocks. -/
theorem blockBytes_congr {t' : Table} {block : Nat}
    (h : ∀ x, x ≠ 0 → blockOf x = block → t'.row x = t.row x) :
    t'.blockBytes block = t.blockBytes block := by
  refine List.flatMap_congr fun x hx => h x ?_ ?_
  · have := List.mem_range'_1.mp hx
    omega
  · have := List.mem_range'_1.mp hx
    unfold blockOf
    rw [Nat.div_eq_iff (by decide)]
    omega

/-- A block whose rows were never set is all zeros. -/
theorem Sound.blockBytes_of_le (h : t.Sound) {block : Nat} (hblock : t.blocks ≤ block) :
    t.blockBytes block = t.layOut.zeroBlock := by
  have hrow : ∀ x ∈ List.range' (block * blockRows + 1) blockRows,
      t.row x = t.schema.zeroRecord := by
    intro x hx
    rw [← h.recordOf_eq_row]
    refine recordOf_of_blocks_le (Nat.lt_of_le_of_lt (Nat.mul_le_mul_right _ hblock) ?_)
    have := List.mem_range'_1.mp hx
    omega
  refine List.eq_replicate_iff.mpr ⟨h.length_flatMap_row _ _, fun byte hbyte => ?_⟩
  obtain ⟨x, hx, hbyte⟩ := List.mem_flatMap.mp hbyte
  rw [hrow x hx] at hbyte
  exact List.eq_of_mem_replicate hbyte

/-! ## Reading -/

theorem locate?_layOut (t : Table) (number : Nat) :
    t.layOut.locate? number =
      if t.addressable number then
        some (blockOf number, (number - 1) % blockRows * t.schema.recordSize)
      else none := by
  unfold Blocks.locate? addressable
  by_cases hnumber : number = 0
  · simp [hnumber]
  · by_cases hsize : t.schema.recordSize = 0
    · simp [hsize, layOut]
    · simp [hnumber, hsize, layOut, blockOf]

theorem getElem?_layOut (t : Table) (block : Nat) :
    t.layOut.blocks[block]? = if block < t.blocks then some (t.blockBytes block) else none := by
  rw [layOut, List.getElem?_map]
  split
  · next hblock => rw [List.getElem?_range hblock, Option.map_some]
  · next hblock =>
      rw [List.getElem?_eq_none (by simpa using hblock), Option.map_none]

/-- A row is where it is looked for in its block. -/
theorem Sound.bytesIn?_blockBytes (h : t.Sound) {number : Nat} (hnumber : number ≠ 0) :
    bytesIn? (t.blockBytes (blockOf number)) ((number - 1) % blockRows * t.schema.recordSize)
      ((number - 1) % blockRows * t.schema.recordSize + t.schema.recordSize) =
        some (t.row number) := by
  rw [blockBytes_blockOf t hnumber, ← h.length_rowsBefore number]
  conv => lhs; rw [← h.length_row number]
  exact bytesIn?_append _ _ _

theorem ne_zero_of_addressable {number : Nat} (h : t.addressable number = true) : number ≠ 0 := by
  rw [addressable, Bool.and_eq_true, decide_eq_true_eq] at h
  exact h.1

/-- The record of a document is found by its place. -/
theorem Sound.record?_layOut (h : t.Sound) (number : Nat) :
    t.layOut.record? number = some (t.record? number) := by
  unfold Blocks.record? record?
  rw [locate?_layOut]
  by_cases haddr : t.addressable number = true
  · rw [if_pos haddr]
    dsimp only
    rw [getElem?_layOut]
    by_cases hblock : blockOf number < t.blocks
    · rw [if_pos hblock, if_pos (by simp [haddr, hblock])]
      dsimp only
      rw [show t.layOut.schema = t.schema from rfl,
        h.bytesIn?_blockBytes (ne_zero_of_addressable haddr)]
      rfl
    · rw [if_neg hblock, if_neg (by simp [hblock])]
  · rw [if_neg haddr, if_neg (by simp [haddr])]

/-- The value of a column is found by its place. -/
theorem Sound.get?_layOut (h : t.Sound) (number : Nat) {i : Nat} {c : Column}
    (hc : t.schema.columns[i]? = some c) : t.layOut.get? number i = some (t.get number i) := by
  unfold Blocks.get?
  rw [h.record?_layOut, show t.layOut.schema = t.schema from rfl, hc]
  cases hrecord : t.record? number with
  | none =>
      have hzero : t.get number i = c.type.decode c.type.zeroBytes := by
        rw [get, hrecord, Option.getD_none, Schema.decode_zeroRecord hc]
      have hbytes : c.type.decode [0, 0, 0, 0] = c.type.decode c.type.zeroBytes := by
        cases c.type <;> rfl
      rw [hzero, ← hbytes]
      rfl
  | some record =>
      have hlength : record.length = t.schema.recordSize := by
        have hrow := h.length_recordOf number
        rwa [recordOf, hrecord] at hrow
      obtain ⟨bytes, hslice⟩ := Schema.exists_bytesIn? hc hlength
      rw [get, hrecord, Option.getD_some, Schema.decode_of_bytesIn? hc hslice]
      change (t.schema.slot? i >>= fun places => bytesIn? record places.1 places.2 >>= fun bytes =>
        some (c.type.decode bytes)) = _
      rw [Schema.slot?_eq hc]
      change (bytesIn? record _ _ >>= fun bytes => some (c.type.decode bytes)) = _
      rw [hslice]
      rfl

/-! ## Writing -/

/-- A list of numbered members, grown to a length. -/
theorem append_replicate_map_range {α : Type} {f : Nat → α} {a : α} {n : Nat} (m : Nat)
    (h : ∀ k, n ≤ k → f k = a) :
    (List.range n).map f ++ List.replicate (m - n) a = (List.range (max n m)).map f := by
  have hmax : max n m = n + (m - n) := by omega
  rw [hmax, List.range_add, List.map_append, List.map_map]
  refine congrArg _ (List.eq_replicate_iff.mpr ⟨by simp, fun b hb => ?_⟩).symm
  obtain ⟨k, -, rfl⟩ := List.mem_map.mp hb
  exact h _ (Nat.le_add_right _ _)

/-- A list of numbered members, one of them replaced. -/
theorem set_map_range {α : Type} {f g : Nat → α} {n k : Nat} (h : ∀ j, j ≠ k → g j = f j) :
    ((List.range n).map f).set k (g k) = (List.range n).map g := by
  refine List.ext_getElem (by simp) fun j hj hj' => ?_
  rw [List.getElem_set]
  split
  · next heq => simp [heq]
  · next hne => simp [h j (Ne.symm hne)]

theorem Sound.row_setRecord (h : t.Sound) {number : Nat} (hnumber : number ≠ 0)
    {record : List UInt8} (hlength : record.length = t.schema.recordSize) (x : Nat) :
    (t.setRecord number record).row x = if x = number then record else t.row x := by
  rw [← (h.setRecord number hlength).recordOf_eq_row, h.recordOf_setRecord hnumber hlength,
    h.recordOf_eq_row]

/-- The bytes of a record go into the row of its document and no other. -/
theorem Sound.splice?_blockBytes (h : t.Sound) {number : Nat} (hnumber : number ≠ 0)
    {record : List UInt8} (hlength : record.length = t.schema.recordSize) :
    splice? (t.blockBytes (blockOf number)) ((number - 1) % blockRows * t.schema.recordSize)
      ((number - 1) % blockRows * t.schema.recordSize + record.length) record =
        some ((t.setRecord number record).blockBytes (blockOf number)) := by
  have hrow := h.row_setRecord hnumber hlength
  have hothers : ∀ l : List Nat, (∀ x ∈ l, x ≠ number) →
      l.flatMap (t.setRecord number record).row = l.flatMap t.row := fun l hl =>
    List.flatMap_congr fun x hx => by rw [hrow, if_neg (hl x hx)]
  have hbefore : ∀ x ∈ rowsBefore number, x ≠ number := by
    intro x hx
    have hdivision := Nat.div_add_mod (number - 1) blockRows
    have hplace := List.mem_range'_1.mp hx
    rw [Nat.mul_comm] at hdivision
    unfold blockOf at hplace
    omega
  have hbehind : ∀ x ∈ rowsBehind number, x ≠ number := by
    intro x hx
    have := List.mem_range'_1.mp hx
    omega
  rw [blockBytes_blockOf t hnumber, blockBytes_blockOf _ hnumber, hothers _ hbefore,
    hothers _ hbehind, hrow, if_pos rfl, ← h.length_rowsBefore number]
  conv => lhs; rw [hlength, ← h.length_row number]
  exact splice?_append _ _ _ (hlength.trans (h.length_row number).symm)

/-- A record is written where its row is, and blocks are added up to there. -/
theorem Sound.setRecord?_layOut (h : t.Sound) (number : Nat) {record : List UInt8}
    (hlength : record.length = t.schema.recordSize) :
    t.layOut.setRecord? number record = some (t.setRecord number record).layOut := by
  unfold Blocks.setRecord?
  rw [locate?_layOut]
  by_cases haddr : t.addressable number = true
  · have hnumber := ne_zero_of_addressable haddr
    have hblocks : (t.setRecord number record).blocks = max t.blocks (blockOf number + 1) := by
      rw [h.setRecord_eq hlength haddr]
    have hgrown : t.layOut.blocks ++
        List.replicate (blockOf number + 1 - t.layOut.blocks.length) t.layOut.zeroBlock =
        (List.range (max t.blocks (blockOf number + 1))).map t.blockBytes := by
      rw [show t.layOut.blocks.length = t.blocks by simp [layOut]]
      exact append_replicate_map_range _ fun k hk => h.blockBytes_of_le hk
    have hblock : ((List.range (max t.blocks (blockOf number + 1))).map t.blockBytes)[blockOf number]? =
        some (t.blockBytes (blockOf number)) := by
      rw [List.getElem?_map, List.getElem?_range (by omega), Option.map_some]
    -- the other blocks keep their rows
    have hset := set_map_range (f := t.blockBytes) (g := (t.setRecord number record).blockBytes)
      (n := max t.blocks (blockOf number + 1)) (k := blockOf number) fun j hj => by
        refine blockBytes_congr fun x _ hx => ?_
        rw [h.row_setRecord hnumber hlength, if_neg]
        rintro rfl
        exact hj hx.symm
    rw [if_pos haddr]
    simp only [hgrown, hblock, Option.bind_eq_bind, Option.bind_some,
      h.splice?_blockBytes hnumber hlength, hset]
    rw [← hblocks, show t.layOut.schema = (t.setRecord number record).schema from
      (schema_setRecord t number record).symm]
    rfl
  · rw [if_neg haddr, Table.setRecord, if_neg haddr]

/-- Zeros are written where the row of a document is, if it has one. -/
theorem Sound.clearRecord?_layOut (h : t.Sound) (number : Nat) :
    t.layOut.clearRecord? number = some (t.clearRecord number).layOut := by
  rw [Blocks.clearRecord?, h.record?_layOut]
  cases hrecord : t.record? number with
  | none =>
      rw [Table.clearRecord, if_neg (by simp [hrecord])]
      rfl
  | some record =>
      rw [Table.clearRecord, if_pos (by simp [hrecord])]
      exact h.setRecord?_layOut number (Schema.length_zeroRecord _)

/-! ## Writing out and reading back -/

/-- All records are written, and zeros for the documents without one. -/
theorem Sound.toBytes?_layOut (h : t.Sound) (maxNumber : Nat) :
    t.layOut.toBytes? maxNumber = some (t.toBytes maxNumber) := by
  have hrecords : ∀ numbers : List Nat,
      numbers.mapM t.layOut.record? = some (numbers.map t.record?) := by
    intro numbers
    induction numbers with
    | nil => rfl
    | cons number numbers ih => simp [h.record?_layOut, ih]
  have hbytes : t.toBytes maxNumber = (List.range' 1 maxNumber).flatMap t.recordOf := by
    unfold toBytes
    split
    · next hsize =>
        rw [eq_comm, ← List.length_eq_zero_iff, h.length_toBytes, hsize, Nat.mul_zero]
    · rfl
  rw [Blocks.toBytes?, hrecords, hbytes]
  simp only [Option.bind_eq_bind, Option.bind_some, List.map_map]
  rfl

/-- Consecutive records are written where their rows are. -/
theorem Sound.setAll?_layOut (h : t.Sound) (first count : Nat) {bytes : List UInt8}
    (hlength : count * t.schema.recordSize ≤ bytes.length) :
    t.layOut.setAll? first count bytes = some (t.setAll first count bytes).layOut := by
  induction count generalizing t first bytes with
  | zero => rfl
  | succ count ih =>
      rw [Nat.succ_mul] at hlength
      have hrecord : (bytes.take t.schema.recordSize).length = t.schema.recordSize := by
        rw [List.length_take]
        omega
      have hrest : count * t.schema.recordSize ≤ (bytes.drop t.schema.recordSize).length := by
        rw [List.length_drop]
        omega
      unfold Blocks.setAll? Table.setAll
      dsimp only
      rw [show t.layOut.schema = t.schema from rfl]
      split
      · rw [h.setRecord?_layOut first hrecord]
        refine ih (h.setRecord first hrecord) (first + 1) ?_
        rw [schema_setRecord]
        exact hrest
      · exact ih h (first + 1) hrest

/-- Bytes are read into the blocks of the table that they are read into. -/
theorem ofBytes?_layOut (schema : Schema) (bytes : List UInt8) :
    Blocks.ofBytes? schema bytes = some ((ofBytes? schema bytes).map layOut) := by
  unfold Blocks.ofBytes? ofBytes?
  dsimp only
  split
  · rfl
  · split
    · have hall := (sound_empty schema).setAll?_layOut 1 (bytes.length / schema.recordSize)
        (Nat.div_mul_le_self _ _)
      rw [show ({ schema } : Blocks) = (empty schema).layOut from rfl, hall]
      rfl
    · rfl

end Table

/-! ## Changes of records -/

/-- What happens to the record of a document. -/
inductive RowChange where
  | set (number : Nat) (record : List UInt8)
  | clear (number : Nat)

namespace RowChange

/-- The document that a change is about. -/
def number : RowChange → Nat
  | set number _ => number
  | clear number => number

/-- Whether a change is about a document with a number, and its record, if any, has the width of a
schema. -/
def Fits (schema : Schema) : RowChange → Prop
  | set number record => 1 ≤ number ∧ record.length = schema.recordSize
  | clear number => 1 ≤ number

/-- The record that a change leaves behind. -/
def record? : RowChange → Option (List UInt8)
  | set _ record => some record
  | clear _ => none

/-- The record that the last change of a document leaves behind. -/
def last? (number : Nat) (changes : List RowChange) : Option (List UInt8) :=
  (changes.filter (·.number = number)).getLast?.bind record?

theorem last?_append (number : Nat) (changes : List RowChange) (change : RowChange) :
    last? number (changes ++ [change]) =
      if number = change.number then change.record? else last? number changes := by
  unfold last?
  rw [List.filter_append]
  by_cases hnumber : change.number = number
  · rw [if_pos hnumber.symm, List.filter_singleton, decide_eq_true hnumber, cond_true,
      List.getLast?_concat, Option.bind_some]
  · rw [if_neg (Ne.symm hnumber), List.filter_singleton, decide_eq_false hnumber, cond_false,
      List.append_nil]

end RowChange

/-- The value zero of a column type. -/
def ColumnType.zero (t : ColumnType) : Numeric :=
  if t = float32 then .double ⟨0⟩ else if t.isSigned then .int 0 else .uint 0

theorem ColumnType.decode_zeroBytes (t : ColumnType) : t.decode t.zeroBytes = t.zero := by
  cases t <;> rfl

/-- The value of a column in a record, zero without one. -/
def Schema.valueAt (s : Schema) (i : Nat) (c : Column) : (record? : Option (List UInt8)) → Numeric
  | some record => s.decode record i
  | none => c.type.zero

theorem Schema.decode_getD {s : Schema} {i : Nat} {c : Column} (hc : s.columns[i]? = some c)
    (record? : Option (List UInt8)) :
    s.decode (record?.getD s.zeroRecord) i = s.valueAt i c record? := by
  cases record? with
  | none => exact (decode_zeroRecord hc).trans c.type.decode_zeroBytes
  | some record => rfl

/-- Makes a change by places. -/
def Blocks.change? (b : Blocks) : RowChange → Option Blocks
  | .set number record => b.setRecord? number record
  | .clear number => b.clearRecord? number

namespace Table

/-- Makes a change. -/
def change (t : Table) : RowChange → Table
  | .set number record => t.setRecord number record
  | .clear number => t.clearRecord number

variable {t : Table}

/-- A change goes to the place of its document, and the records of the others stay. -/
theorem Sound.change (h : t.Sound) {change : RowChange} (hfits : change.Fits t.schema) :
    (t.change change).Sound ∧ (t.change change).schema = t.schema ∧
      t.layOut.change? change = some (t.change change).layOut ∧
      ∀ x, (t.change change).recordOf x =
        if x = change.number then change.record?.getD t.schema.zeroRecord else t.recordOf x := by
  cases change with
  | set number record =>
      obtain ⟨hnumber, hlength⟩ := hfits
      exact ⟨h.setRecord number hlength, schema_setRecord t number record,
        h.setRecord?_layOut number hlength,
        h.recordOf_setRecord (Nat.ne_of_gt hnumber) hlength⟩
  | clear number =>
      exact ⟨h.clearRecord number, schema_clearRecord t number, h.clearRecord?_layOut number,
        h.recordOf_clearRecord number⟩

/-- The record of a document after any changes is the one that its last change left behind. -/
theorem changes_recordOf (schema : Schema) (changes : List RowChange)
    (h : ∀ change ∈ changes, change.Fits schema) :
    let t := changes.foldl change (.empty schema)
    t.Sound ∧ t.schema = schema ∧
      changes.foldlM Blocks.change? ({ schema } : Blocks) = some t.layOut ∧
      ∀ x, t.recordOf x = (RowChange.last? x changes).getD schema.zeroRecord := by
  induction changes using List.reverseRecOn with
  | nil => exact ⟨sound_empty schema, rfl, rfl, recordOf_empty schema⟩
  | append_singleton changes change ih =>
      obtain ⟨hsound, hschema, hblocks, hrecord⟩ :=
        ih fun x hx => h x (List.mem_append_left _ hx)
      have hfits := h change (List.mem_append_right _ (List.mem_singleton_self _))
      rw [← hschema] at hfits
      obtain ⟨hsound', hschema', hblocks', hrecord'⟩ := hsound.change hfits
      rw [List.foldl_append, List.foldlM_append, hblocks]
      refine ⟨hsound', hschema'.trans hschema, ?_, fun x => ?_⟩
      · simp only [Option.bind_eq_bind, Option.bind_some, List.foldlM_cons, hblocks']
        rfl
      · rw [RowChange.last?_append, List.foldl_cons, List.foldl_nil, hrecord', hrecord, hschema]
        split <;> rfl

/-- Whatever records were set and cleared, every place is there, a document reads the last record
that was set for it, or zeros if there is none or it was cleared after. What is written out up to a
number can be read, and reads the same up to there and zeros beyond. -/
theorem table_is_map (schema : Schema) (changes : List RowChange)
    (h : ∀ change ∈ changes, change.Fits schema) :
    ∃ b, changes.foldlM Blocks.change? ({ schema } : Blocks) = some b ∧
      b = (changes.foldl change (.empty schema)).layOut ∧
      (∀ number i c, schema.columns[i]? = some c →
        b.get? number i = some (schema.valueAt i c (RowChange.last? number changes)) ∧
        (changes.foldl change (.empty schema)).get number i =
          schema.valueAt i c (RowChange.last? number changes)) ∧
      ∀ maxNumber, ∃ bytes t',
        b.toBytes? maxNumber = some bytes ∧
        (changes.foldl change (.empty schema)).toBytes maxNumber = bytes ∧
        ofBytes? schema bytes = some t' ∧
        Blocks.ofBytes? schema bytes = some (some t'.layOut) ∧
        ∀ number i c, schema.columns[i]? = some c →
          t'.layOut.get? number i = some (t'.get number i) ∧
          t'.get number i =
            if 1 ≤ number ∧ number ≤ maxNumber then
              schema.valueAt i c (RowChange.last? number changes)
            else c.type.zero := by
  obtain ⟨hsound, hschema, hblocks, hrecord⟩ := changes_recordOf schema changes h
  have hget : ∀ number i c, schema.columns[i]? = some c →
      (changes.foldl change (.empty schema)).get number i =
        schema.valueAt i c (RowChange.last? number changes) := by
    intro number i c hc
    rw [get_eq_decode, hschema, hrecord, Schema.decode_getD hc]
  refine ⟨_, hblocks, rfl, fun number i c hc => ⟨?_, hget number i c hc⟩, fun maxNumber => ?_⟩
  · rw [hsound.get?_layOut number (hschema ▸ hc), hget number i c hc]
  · obtain ⟨t', hread, hsound', hschema', hrecord'⟩ := hsound.ofBytes?_toBytes_upTo maxNumber
    rw [hschema] at hread hschema' hrecord'
    refine ⟨_, t', hsound.toBytes?_layOut maxNumber, rfl, hread, ?_, fun number i c hc => ?_⟩
    · rw [ofBytes?_layOut, hread, Option.map_some]
    · refine ⟨hsound'.get?_layOut number (hschema'.symm ▸ hc), ?_⟩
      rw [get_eq_decode, hschema', hrecord']
      split
      · rw [hrecord, Schema.decode_getD hc]
      · exact (Schema.decode_zeroRecord hc).trans c.type.decode_zeroBytes

/-- The documents on both sides of the end of a block, and one that is far away. -/
theorem table_is_map_across_blocks :
    let schema : Schema := ⟨[⟨"flag", .int8, none⟩, ⟨"views", .uint16, none⟩], rfl⟩
    let changes : List RowChange :=
      [.set 256 [1, 7, 0], .set 257 [255, 2, 0], .set 100000 [3, 3, 1], .clear 256]
    (∀ change ∈ changes, change.Fits schema) ∧
      ∃ b, changes.foldlM Blocks.change? ({ schema } : Blocks) = some b ∧
        b.get? 256 1 = some (.uint 0) ∧ b.get? 257 0 = some (.int (-1)) ∧
        b.get? 257 1 = some (.uint 2) ∧ b.get? 100000 1 = some (.uint 259) := by
  intro schema changes
  have hfits : ∀ change ∈ changes, change.Fits schema := by
    simp only [changes, List.forall_mem_cons, RowChange.Fits]
    exact ⟨⟨by decide, rfl⟩, ⟨by decide, rfl⟩, ⟨by decide, rfl⟩, by decide, by simp⟩
  obtain ⟨b, hb, -, hget, -⟩ := table_is_map schema changes hfits
  exact ⟨hfits, b, hb, (hget 256 1 _ rfl).1, (hget 257 0 _ rfl).1, (hget 257 1 _ rfl).1,
    (hget 100000 1 _ rfl).1⟩

end Table

end Concordance
