import Concordance.Exchange.Document
import Concordance.Exchange.Value
import Concordance.Recovery.CommitRecord
import Concordance.Statistics.Message
import Concordance.Statistics.Replica

/-!
# Exchange forms of changes

A change of statistics is a term with its increment; records, messages and replicas are objects. An
operation is an array: its name and what it needs. The record of a commit holds its operations and
its statistics.
-/

namespace Concordance.Exchange

/-! ## Statistics -/

open Statistics

def ofChanges (l : List Change) : Json := ofList (fun c => ofTerm c.term [.ofInt c.increment]) l

def ofRecord (r : Record) : Json :=
  .object [
    ("ts", ofStamp r.timestamp),
    ("nofdocs", .ofInt r.documents),
    ("changes", ofChanges r.changes)]

/-- The members of a message, with the form that its timestamp has. -/
def messageMembers (stamp : TimeStamp → Json) (m : Message) : List (String × Json) :=
  [("ts", stamp m.timestamp),
    ("part", .ofNat m.part),
    ("origin", .text (m.origin.title)),
    ("encoding", .text m.encoding.name),
    ("nofdocs", .ofInt m.documents),
    ("changes", ofChanges m.changes)]

def ofMessage (m : Message) : Json := .object (messageMembers ofStamp m)

/-- The statistics that a replica has collected, with the form of its timestamp. -/
def ofReplica (stamp : TimeStamp → Json) (r : Replica) : Json :=
  .object [
    ("nofdocs", .ofInt r.documents),
    ("last", ofOption stamp r.lastApplied),
    ("terms", ofList (fun (t, n) => ofTerm t [.ofInt n]) r.frequencies.toList)]

def change : Json → Option Change
  | .array [type, value, increment] => do
    return ⟨⟨← type.asText, ← value.asText⟩, ← increment.asInt⟩
  | _ => none

def record (v : Json) : Option Record := do
  match ← v.asFields ["ts", "nofdocs", "changes"] with
  | [timestamp, documents, changes] =>
    return {
      timestamp := ← Json.requiredField stamp timestamp
      documents := ← Json.requiredField Json.asInt documents
      changes := ← Json.optionalField [] (Json.asList change) changes }
  | _ => none

def origin (v : Json) : Option Origin := do
  let name ← v.asText
  Origin.all.find? (·.title == name)

/-- An encoding; the usual one if none is named. -/
def encoding : Option Json → Except Error Encoding
  | none | some .null => .ok .standard
  | some (.text name) => Encoding.parse name
  | some _ => .error (.json "malformed encoding")

/-- A message; a part, an origin or an encoding that is missing is the usual one. -/
def message (v : Json) : Except Error Message := do
  match ← required "message" (v.asFields ["part", "origin", "encoding"]) with
  | [part, kind, name] =>
    let r ← required "message" (record v)
    return {
      timestamp := r.timestamp
      part := ← required "part" (Json.optionalField 0 word32 part)
      origin := ← required "origin" (Json.optionalField .update origin kind)
      encoding := ← encoding name
      documents := r.documents
      changes := r.changes }
  | _ => .error (.json "malformed message")

/-! ## Operations -/

/-- A step of a migration. -/
def ofAlteration : Alteration → Json
  | .add name type => .ofTexts ["add", name, type.name]
  | .remove name => .ofTexts ["remove", name]
  | .rename old new => .ofTexts ["rename", old, new]
  | .retype name type => .ofTexts ["alter", name, type.name]
  | .clear name => .ofTexts ["clear", name]

def ofOperation : Operation → Json
  | .insert number id d => .array [.text "insert", .ofNat number, .text id, ofDocument d]
  | .delete id => .ofTexts ["delete", id]
  | .deleteUser user => .ofTexts ["delete_user", user]
  | .define schema => .ofTexts ["define", schema.display]
  | .alter alterations => .array [.text "alter", ofList ofAlteration alterations]

def ofCommit (r : CommitRecord) : Json :=
  .object [
    ("generation", .ofNat r.generation),
    ("ts", ofStamp r.timestamp),
    ("operations", ofList ofOperation r.operations),
    ("statistics", ofRecord r.statistics)]

/-- A step of a migration. -/
def alteration : Json → Except Error Alteration
  | .array [.text "add", .text name, .text type] => do return .add name (← ColumnType.parse type)
  | .array [.text "remove", .text name] => .ok (.remove name)
  | .array [.text "rename", .text old, .text new] => .ok (.rename old new)
  | .array [.text "alter", .text name, .text type] => do
    return .retype name (← ColumnType.parse type)
  | .array [.text "clear", .text name] => .ok (.clear name)
  | _ => .error (.json "malformed alteration")

/-- The steps of a migration. -/
def alterations : Json → Except Error (List Alteration)
  | .array steps => steps.mapM alteration
  | _ => .error (.json "malformed alterations")

def operation : Json → Except Error Operation
  | .array [.text "insert", number, .text id, d] => do
    return .insert (← required "number" (word32 number)) id (← required "document" (document d))
  | .array [.text "delete", .text id] => .ok (.delete id)
  | .array [.text "delete_user", .text user] => .ok (.deleteUser user)
  | .array [.text "define", .text schema] => do return .define (← Schema.parse schema)
  | .array [.text "alter", steps] => do return .alter (← alterations steps)
  | _ => .error (.json "malformed operation")

def commit (v : Json) : Except Error CommitRecord := do
  match ← required "commit" (v.asFields ["generation", "ts", "operations", "statistics"]) with
  | [generation, timestamp, operations, statistics] =>
    return {
      generation := ← required "generation" (Json.requiredField word64 generation)
      timestamp := ← required "timestamp" (Json.requiredField stamp timestamp)
      operations :=
        ← (← required "operations" (Json.requiredField (Json.asList some) operations)).mapM operation
      statistics := ← required "statistics" (Json.requiredField record statistics) }
  | _ => .error (.json "malformed commit")

end Concordance.Exchange
