import Concordance.Metadata.Schema

/-!
# Metadata tables

A table holds a record for every document number, zero unless set. Rows are allocated in blocks of
`blockRows`, all blocks up to the last one in use; rows outside of them have no record.
-/

namespace Concordance

/-- The metadata records of documents. -/
structure Table where
  schema : Schema
  /-- The number of allocated blocks. -/
  blocks : Nat := 0
  /-- The rows that were set. -/
  rows : SortedMap Nat (List UInt8) := ∅
  deriving DecidableEq

namespace Table

instance : Inhabited Table := ⟨{ schema := .empty }⟩

/-- The number of rows in a block. -/
def blockRows : Nat := 256

/-- The table without records. -/
def empty (schema : Schema) : Table := { schema }

/-- The block of a document, counted from 0. -/
def blockOf (number : Nat) : Nat := (number - 1) / blockRows

/-- Whether a document has a row in principle: it has a number and records have columns. -/
def addressable (t : Table) (number : Nat) : Bool := number ≠ 0 && t.schema.recordSize ≠ 0

/-- The bytes of the row of a document. -/
def row (t : Table) (number : Nat) : List UInt8 := t.rows.getD number t.schema.zeroRecord

/-- The record of a document, if its block is allocated. -/
def record? (t : Table) (number : Nat) : Option (List UInt8) :=
  if t.addressable number && blockOf number < t.blocks then some (t.row number) else none

/-- The value of a column of a document; zero if it was never set. -/
def get (t : Table) (number index : Nat) : Numeric :=
  t.schema.decode ((t.record? number).getD t.schema.zeroRecord) index

/-- The value of a named column of a document. -/
def get? (t : Table) (number : Nat) (name : String) : Option Numeric :=
  (t.schema.indexOf? name).map (t.get number)

/-- Overwrites bytes from the start of a row on. A record fills its row; more bytes go on into the
next row, and fewer bytes leave the rest of the row as it is. -/
def overwrite (t : Table) (number : Nat) : (rows : Nat) → List UInt8 → Table
  | 0, _ => t
  | rows + 1, bytes =>
    if bytes.isEmpty then t
    else
      let size := t.schema.recordSize
      let row := bytes.take size ++ (t.row number).drop bytes.length
      overwrite { t with rows := t.rows.insert number row } (number + 1) rows (bytes.drop size)

/-- Sets the record of a document. -/
def setRecord (t : Table) (number : Nat) (record : List UInt8) : Table :=
  if t.addressable number then
    overwrite { t with blocks := max t.blocks (blockOf number + 1) } number
      (blockRows - (number - 1) % blockRows) record
  else t

/-- Sets the record of a document to zero. -/
def clearRecord (t : Table) (number : Nat) : Table :=
  if (t.record? number).isSome then t.setRecord number t.schema.zeroRecord else t

/-- The documents up to a number that have a record. -/
def recorded (t : Table) (maxNumber : Nat) : List Nat :=
  if t.schema.recordSize = 0 then [] else List.range' 1 (min maxNumber (t.blocks * blockRows))

/-- The records of the documents up to a number, one behind the other. -/
def toBytes (t : Table) (maxNumber : Nat) : List UInt8 :=
  if t.schema.recordSize = 0 then []
  else (List.range' 1 maxNumber).flatMap fun number => (t.record? number).getD t.schema.zeroRecord

/-- Sets the records of consecutive documents; records of zeros are left out. -/
def setAll (t : Table) (number : Nat) : (records : Nat) → List UInt8 → Table
  | 0, _ => t
  | records + 1, bytes =>
    let record := bytes.take t.schema.recordSize
    let t' := if record.any (· != 0) then t.setRecord number record else t
    setAll t' (number + 1) records (bytes.drop t.schema.recordSize)

/-- The table of the records of consecutive documents; nothing if the bytes are no whole number of
records. -/
def ofBytes? (schema : Schema) (bytes : List UInt8) : Option Table :=
  let size := schema.recordSize
  if size = 0 then some (empty schema)
  else if bytes.length % size = 0 then some ((empty schema).setAll 1 (bytes.length / size) bytes)
  else none

end Table

end Concordance
