import Concordance.Catalog.Access
import Concordance.Catalog.Numbering
import Concordance.Catalog.Postings
import Concordance.Document.Stored
import Concordance.Metadata.Migration
import Concordance.Statistics.Basic

/-!
# Snapshots

A snapshot is one state of the index: documents under their numbers, posting lists, metadata and
access lists. Operations lead from one snapshot to the next, or are refused and lead nowhere.
-/

namespace Concordance

/-- A change of the index. -/
inductive Operation where
  /-- Stores a document under a number, in the place of an earlier version. -/
  | insert (number : Nat) (id : String) (document : Document)
  | delete (id : String)
  /-- Takes a user off all access lists. -/
  | deleteUser (user : String)
  /-- Gives an empty storage another metadata schema. -/
  | define (schema : Schema)
  /-- Migrates the metadata. -/
  | alter (alterations : List Alteration)
  deriving Inhabited

/-- One state of the index. -/
structure Snapshot where
  generation : Nat := 0
  timestamp : Statistics.TimeStamp := ⟨0, 0⟩
  /-- Whether access to documents is controlled. -/
  accessControl : Bool
  numbering : Numbering := {}
  documents : SortedMap Nat StoredDocument := ∅
  postings : SortedMap Term Postings := ∅
  metadata : Table
  access : AccessLists := ∅
  deriving Inhabited

/-- Why an operation is refused. -/
inductive OperationFault where
  | record (fault : Schema.RecordFault)
  | migration (fault : MigrationFault)
  /-- The document has another number. -/
  | otherNumber (id : String) (existing number : Nat)
  | noDocument (id : String)
  | notEmpty

def OperationFault.toError : OperationFault → Error
  | .record fault => fault.toError
  | .migration fault => fault.toError
  | .otherNumber id existing number =>
    .transaction s!"document '{id}' is mapped to {existing}, not {number}"
  | .noDocument id => .transaction s!"document '{id}' does not exist"
  | .notEmpty => .transaction "metadata table can only be defined while the storage is empty"

namespace Snapshot

/-- The snapshot without documents. -/
def empty (schema : Schema) (accessControl : Bool) : Snapshot :=
  { accessControl, metadata := .empty schema }

/-! ## Reading -/

/-- The number of documents. -/
def size (s : Snapshot) : Nat := s.numbering.numbers.size

/-- The greatest document number handed out. -/
def maxNumber (s : Snapshot) : Nat := s.numbering.maxNumber

def number? (s : Snapshot) (id : String) : Option Nat := s.numbering.number? id

/-- The identifier of a document. -/
def id? (s : Snapshot) (number : Nat) : Option String := s.numbering.id? number

/-- The number of documents with a term. -/
def documentFrequency (s : Snapshot) (t : Term) : Nat :=
  ((s.postings.get? t).map (·.documentFrequency)).getD 0

/-- The types of the terms, ascending. -/
def termTypes (s : Snapshot) : List String := ascending (s.postings.keys.map (·.type))

/-- All terms with their document frequencies, ascending. -/
def termStatistics (s : Snapshot) : List (Term × Nat) :=
  s.postings.toList.map fun (t, p) => (t, p.documentFrequency)

/-! ## Changing -/

/-- Takes a document off the posting list of a term; an empty list is dropped. -/
def erasePosting (number : Nat) (postings : SortedMap Term Postings) (t : Term) :
    SortedMap Term Postings :=
  match postings.get? t with
  | none => postings
  | some list =>
    let left := list.erase number
    if left.isEmpty then postings.erase t else postings.insert t left

/-- Drops the data of a number: document, postings, access and metadata. Answers the terms that the
document had. -/
def dropData (s : Snapshot) (number : Nat) : List Term × Snapshot :=
  match s.documents.get? number with
  | none => ([], s)
  | some stored =>
    (stored.search.keys, { s with
      documents := s.documents.erase number
      postings := stored.search.keys.foldl (erasePosting number) s.postings
      access := s.access.revoke number stored.access
      metadata := s.metadata.clearRecord number })

/-- Enters the positions of a term in a document. -/
def enterPosting (number : Nat) (postings : SortedMap Term Postings) (entry : Term × List Nat) :
    SortedMap Term Postings :=
  postings.insert entry.1 ((postings.getD entry.1 ∅).insert number entry.2)

/-- Enters the data of a document under a number. -/
def enterData (s : Snapshot) (number : Nat) (record : List UInt8) (stored : StoredDocument) :
    Snapshot :=
  { s with
    documents := s.documents.insert number stored
    postings := stored.search.toList.foldl (enterPosting number) s.postings
    access := s.access.grant number stored.access
    metadata := s.metadata.setRecord number record }

/-- Stores a document. Answers the terms that the old and the new version have. -/
def insert (s : Snapshot) (number : Nat) (id : String) (doc : Document) :
    Except OperationFault (List Term × Snapshot) := do
  let record ← (s.metadata.schema.buildRecord doc).mapError .record
  let stored := StoredDocument.ofDocument id doc s.accessControl
  let (dropped, s) ← match s.number? id with
    | none => pure ([], s)
    | some existing =>
      if existing = number then pure (s.dropData number)
      else .error (.otherNumber id existing number)
  let s := { s with numbering := s.numbering.assign id number }
  return (dropped ++ stored.search.keys, s.enterData number record stored)

/-- Deletes a document. Answers the terms that it had. -/
def delete (s : Snapshot) (id : String) : Except OperationFault (List Term × Snapshot) :=
  match s.numbering.release id s.generation with
  | none => .error (.noDocument id)
  | some (number, numbering) =>
    let (dropped, s) := s.dropData number
    .ok (dropped, { s with numbering })

/-- Takes a user off the access lists. -/
def deleteUser (s : Snapshot) (user : String) : Snapshot :=
  let (numbers, access) := s.access.removeUser user
  let withoutUser (stored : StoredDocument) : StoredDocument :=
    { stored with access := stored.access.filter (· ≠ user) }
  { s with
    access
    documents := numbers.foldl (fun m n => m.alter n (·.map withoutUser)) s.documents }

/-- Applies an operation. Answers the terms whose posting lists it went through. -/
def apply (s : Snapshot) : Operation → Except OperationFault (List Term × Snapshot)
  | .insert number id doc => s.insert number id doc
  | .delete id => s.delete id
  | .deleteUser user => .ok ([], s.deleteUser user)
  | .define schema =>
    if s.size = 0 then .ok ([], { s with metadata := .empty schema }) else .error .notEmpty
  | .alter alterations => do
    let metadata ← (s.metadata.alter alterations s.maxNumber).mapError .migration
    return ([], { s with metadata })

/-- The access lists that the stored documents call for. -/
def rebuiltAccess (documents : SortedMap Nat StoredDocument) : AccessLists :=
  documents.foldl (fun a number stored => a.grant number stored.access) ∅

end Snapshot

end Concordance
