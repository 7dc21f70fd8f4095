import Concordance.Catalog.Snapshot

/-!
# Transactions

A transaction collects changes of a storage. A document is checked when it is staged, against the
schema that the changes staged before it lead to. Nothing happens to the storage before the commit,
which hands over all changes at once.
-/

namespace Concordance

/-- A change that waits for its commit. -/
inductive StagedOperation where
  /-- Stores a document; only an update may take the place of an earlier version. -/
  | insert (id : String) (document : Document) (update : Bool)
  | delete (id : String)
  | deleteUser (user : String)
  | define (schema : Schema)
  | alter (alterations : List Alteration)
  deriving Inhabited

/-- The state of a transaction. -/
inductive TransactionState where
  | active
  | committed
  /-- Rolled back, or failed to commit. -/
  | aborted
  deriving DecidableEq, Repr, Inhabited

def TransactionState.name : TransactionState → String
  | .active => "Active"
  | .committed => "Committed"
  | .aborted => "Aborted"

/-- A transaction. -/
structure Transaction where
  id : String
  state : TransactionState := .active
  staged : List StagedOperation := []
  /-- The schema that the staged changes lead to. -/
  schema : Schema
  deriving Inhabited

/-- Why a change is not staged. -/
inductive StagingFault where
  | notActive (id : String) (state : TransactionState)
  | unnamedDocument
  /-- A term stands at a position that documents do not have. -/
  | position (document : String) (occurrence : Occurrence)
  | record (fault : Schema.RecordFault)
  | migration (fault : MigrationFault)

def StagingFault.toError : StagingFault → Error
  | .notActive id state => .invalidOperation s!"transaction {id} is {state.name}"
  | .unnamedDocument => .transaction "document id must not be empty"
  | .position document occurrence =>
    .transaction (s!"document '{document}': term " ++ occurrence.term.display ++
      s!" has position {occurrence.position}, positions range from 1 to {maxPosition}")
  | .record fault => fault.toError
  | .migration fault => fault.toError

namespace Transaction

/-- Refuses a transaction that has ended. -/
def ensureActive (t : Transaction) : Except StagingFault Unit :=
  if t.state = .active then .ok () else .error (.notActive t.id t.state)

/-- The transaction with one change more. -/
def stage (t : Transaction) (op : StagedOperation) : Transaction :=
  { t with staged := t.staged ++ [op] }

def isPosition (position : Nat) : Bool := 1 ≤ position && position ≤ maxPosition

/-- Stages a document. Users are dropped if the storage does not control access. -/
def stageDocument (t : Transaction) (accessControl : Bool) (id : String) (document : Document)
    (update : Bool) : Except StagingFault Transaction := do
  t.ensureActive
  if id.isEmpty then throw .unnamedDocument
  match (document.search ++ document.forward).find? fun o => !isPosition o.position with
  | some occurrence => throw (.position id occurrence)
  | none => pure ()
  let _ ← (t.schema.buildRecord document).mapError .record
  let document := if accessControl then document else { document with access := [] }
  return t.stage (.insert id document update)

def stageDelete (t : Transaction) (id : String) : Except StagingFault Transaction := do
  t.ensureActive
  return t.stage (.delete id)

/-- Stages taking a user off all access lists. -/
def stageDeleteUser (t : Transaction) (user : String) : Except StagingFault Transaction := do
  t.ensureActive
  return t.stage (.deleteUser user)

def stageDefine (t : Transaction) (schema : Schema) : Except StagingFault Transaction := do
  t.ensureActive
  return { t.stage (.define schema) with schema }

/-- Stages a migration; it has to be possible for a table without documents. -/
def stageAlter (t : Transaction) (alterations : List Alteration) :
    Except StagingFault Transaction := do
  t.ensureActive
  let altered ← ((Table.empty t.schema).alter alterations 0).mapError .migration
  return { t.stage (.alter alterations) with schema := altered.schema }

/-- Drops all changes. -/
def rollback (t : Transaction) : Except StagingFault Transaction := do
  t.ensureActive
  return { t with state := .aborted, staged := [] }

end Transaction

end Concordance
