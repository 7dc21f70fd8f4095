import Concordance.Metadata.Table

/-!
# Migrations

A list of alterations turns a table into one with another schema. The alterations are run on the
list of columns, each column remembering the old column that its values come from; then every
record is converted once.
-/

namespace Concordance

/-- One step of a migration. -/
inductive Alteration where
  /-- Adds a column of zeros at the end. -/
  | add (name : String) (type : ColumnType)
  | remove (name : String)
  | rename (old new : String)
  /-- Gives a column another type, keeping its values. -/
  | retype (name : String) (type : ColumnType)
  /-- Sets all values of a column to zero. -/
  | clear (name : String)
  deriving DecidableEq, Repr, Inhabited

/-- A column of the new schema and the place of the old column that its values come from. -/
structure Descent where
  column : Column
  source : Option Nat
  deriving DecidableEq, Repr

/-- Why a migration fails. -/
inductive MigrationFault where
  | unknownColumn (name : String)
  | columnExists (name : String)
  | columns (fault : ColumnsFault)
  | misfit (column : String) (number : Nat) (reason : Misfit)

def MigrationFault.toError : MigrationFault → Error
  | .unknownColumn name => .config s!"unknown metadata column '{name}'"
  | .columnExists name => .config s!"metadata column '{name}' already exists"
  | .columns fault => fault.toError
  | .misfit column number reason =>
    .transaction
      (s!"cannot convert metadata column '{column}' of document {number}: " ++ reason.message)

namespace Alteration

def changeColumn (layout : List Descent) (name : String) (change : Descent → Descent) :
    Except MigrationFault (List Descent) :=
  match layout.findIdx? (·.column.name == name) with
  | some index => .ok (layout.modify index change)
  | none => .error (.unknownColumn name)

/-- Refuses a name that is in use. -/
def checkFresh (layout : List Descent) (name : String) : Except MigrationFault Unit :=
  if layout.any (·.column.name == name) then .error (.columnExists name) else .ok ()

/-- Runs one alteration on the columns. -/
def run (layout : List Descent) : Alteration → Except MigrationFault (List Descent)
  | add name type => do
    checkFresh layout name
    return layout ++ [⟨⟨name, type, none⟩, none⟩]
  | remove name =>
    match layout.findIdx? (·.column.name == name) with
    | some index => .ok (layout.eraseIdx index)
    | none => .error (.unknownColumn name)
  | rename old new => do
    checkFresh layout new
    changeColumn layout old fun d => { d with column := { d.column with name := new } }
  | retype name type =>
    changeColumn layout name fun d => { d with column := { d.column with type } }
  | clear name => changeColumn layout name fun d => { d with source := none }

end Alteration

namespace Table

/-- The columns of a table, each descending from itself. -/
def layout (t : Table) : List Descent := t.schema.columns.zipIdx.map fun (c, i) => ⟨c, some i⟩

/-- The bytes of a new column in the record of a document. -/
def convertColumn (t : Table) (number : Nat) (record : List UInt8) (d : Descent) :
    Except MigrationFault (List UInt8) :=
  match d.source with
  | none => .ok d.column.type.zeroBytes
  | some source =>
    match d.column.type.encode (t.schema.decode record source) with
    | .ok bytes => .ok bytes
    | .error reason => .error (.misfit d.column.name number reason)

/-- The new record of a document. -/
def convertRecord (t : Table) (layout : List Descent) (number : Nat) :
    Except MigrationFault (Nat × List UInt8) := do
  let record := (t.record? number).getD t.schema.zeroRecord
  return (number, (← layout.mapM (t.convertColumn number record)).flatten)

/-- Runs a migration, converting the records of the documents up to a number. -/
def alter (t : Table) (alterations : List Alteration) (maxNumber : Nat) :
    Except MigrationFault Table := do
  let layout ← alterations.foldlM Alteration.run t.layout
  let schema ← (Schema.ofColumns (layout.map (·.column))).mapError .columns
  let records ← (t.recorded maxNumber).mapM (t.convertRecord layout)
  return records.foldl (fun new (number, record) => new.setRecord number record) (empty schema)

end Table

end Concordance
