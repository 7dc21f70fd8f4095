import Concordance.Json.Printer
import Concordance.Json.Reader
import Concordance.Query.Cursor
import Concordance.Query.Planning
import Concordance.Recovery.Checkpoint
import Concordance.Recovery.Journal
import Concordance.Statistics.Message
import Concordance.Store.Config
import Concordance.Store.Transaction

/-!
# Stores

A store is an open storage: its current snapshot, its history and its journal. `create` sets one up
on a volume, and `open` restores it from the checkpoint and the commits that the journal holds
beyond it.
-/

namespace Concordance

/-- The name of the configuration's file. -/
def configFile : String := "config.json"

/-- An open storage. -/
structure Store where
  config : Config
  journal : Journal
  current : Snapshot
  history : Statistics.History
  closed : Bool := false
  deriving Inhabited

namespace Store

/-! ## Lifecycle -/

/-- Writes the configuration of a new storage. -/
def writeConfig (config : Config) : Disk Unit := do
  Disk.create configFile
  Disk.write configFile (Wire.textBytes (Json.renderPretty config.toJson))
  Disk.sync configFile
  Disk.close configFile

def readConfig : Disk Config := do
  let bytes ← Disk.read configFile
  match (Json.readBytes? bytes).bind Config.ofJson with
  | some config => return config
  | none => throw (.json "malformed configuration file")

/-- The store of an empty storage. -/
def fresh (config : Config) (journal : Journal) : Store where
  config
  journal
  current := .empty config.schema config.accessControl
  history := .empty config.historyLimit

/-- Sets up a storage on a volume. -/
def create (config : Config) : Disk Store := do
  writeConfig config
  let (journal, _) ← Journal.open
  return fresh config journal

/-- Applies operations one after the other; answers the terms that they went through. -/
def applyAll (s : Snapshot) : List Operation → Except Error (List Term × Snapshot)
  | [] => .ok ([], s)
  | op :: rest => do
    let (touched, s) ← (s.apply op).mapError OperationFault.toError
    let (more, s) ← applyAll s rest
    return (touched ++ more, s)

/-- A snapshot with the statistics of the commits that led to it. -/
abbrev Restored := Snapshot × List Statistics.Record

/-- Repeats a commit unless the snapshot already holds it. -/
def replay (state : Restored) (r : CommitRecord) : Except Error Restored := do
  let (s, records) := state
  if r.generation ≤ s.generation then return state
  let s := { s with generation := r.generation, timestamp := r.timestamp }
  let (_, s) ← applyAll s r.operations
  return (s, records ++ [r.statistics])

/-- The state of the checkpoint, or that of an empty storage. -/
def checkpointed (stored : Config) : Disk Checkpoint := do
  match ← Checkpoint.read? stored.accessControl with
  | some checkpoint => return checkpoint
  | none =>
    return {
      snapshot := .empty stored.schema stored.accessControl
      records := []
      horizon := none }

/-- The configuration of an opened storage. Path, cache size and history limit are those asked for,
all else is as it was stored. -/
def effectiveConfig (asked stored : Config) (schema : Schema) : Config :=
  { stored with
    path := asked.path
    cacheSize := asked.cacheSize
    historyLimit := asked.historyLimit
    schema }

/-- Restores a storage from its volume. A schema that is asked for has to be that of the storage. -/
def «open» (config : Config) : Disk Store := do
  let stored ← readConfig
  let checkpoint ← checkpointed stored
  let (journal, commits) ← Journal.open
  let (snapshot, records) ←
    ofExcept (commits.foldlM replay (checkpoint.snapshot, checkpoint.records))
  let schema := snapshot.metadata.schema
  if !config.schema.isEmpty && config.schema ≠ schema then
    throw (.config ("metadata schema '" ++ config.schema.display ++
      "' does not match the storage schema '" ++ schema.display ++ "'"))
  let effective := effectiveConfig config stored schema
  return {
    config := effective
    journal
    current := snapshot
    history := .restore effective.historyLimit checkpoint.horizon records }

/-- Closes a store. Closing it again changes nothing. -/
def close (s : Store) (v : Volume) : Except Error Unit × Store × Volume :=
  if s.closed then (.ok (), s, v)
  else
    let (r, v) := Disk.syncDirectory.run v
    (r, { s with closed := true }, v)

/-- Refuses a store that is closed. -/
def ensureOpen (s : Store) : Except Error Unit :=
  if s.closed then .error (.invalidOperation "storage is closed") else .ok ()

def begin (s : Store) (id : String) : Except Error Transaction := do
  s.ensureOpen
  return { id, schema := s.current.metadata.schema }

/-! ## Statistics -/

/-- All statistics of a snapshot as one record; negated if the storage leaves. -/
def fullRecord (s : Snapshot) (register : Bool) : Statistics.Record :=
  let sign : Int := if register then 1 else -1
  { timestamp := s.timestamp
    documents := sign * s.size
    changes := s.termStatistics.map fun (term, frequency) => ⟨term, sign * frequency⟩ }

/-- The records that announce a storage, or take it back, and what they are. -/
def initialStatistics (s : Store) (register : Bool) : Statistics.Origin × List Statistics.Record :=
  (if register then .register else .deregister, [fullRecord s.current register])

/-- The records of the commits after a point in time. -/
def updateStatistics (s : Store) (since : Option Statistics.TimeStamp) :
    Except Error (Statistics.Origin × List Statistics.Record) := do
  return (.update, ← (s.history.since since).mapError Statistics.History.Gone.toError)

/-- The messages of records, in the encoding of the store. -/
def messages (s : Store) (statistics : Statistics.Origin × List Statistics.Record)
    (maxEntries : Nat) : List Statistics.Message :=
  Statistics.Message.splitAll statistics.2 statistics.1 s.config.encoding maxEntries

end Store

namespace Snapshot

/-! ## Reading documents -/

/-- The documents that match a pattern, with the starts of the matches. -/
def matchesOf (s : Snapshot) (p : Pattern) : Except Error (List (Nat × List Nat)) := do
  return (← (p.plan s).mapError PatternFault.toError).allMatches

/-- The forward index of a term type in a document. -/
def forwardTerms (s : Snapshot) (number : Nat) (type : String) : List ForwardEntry :=
  ((s.documents.get? number).map (·.forwardTerms type)).getD []

def attribute? (s : Snapshot) (number : Nat) (name : String) : Option String :=
  (s.documents.get? number).bind (·.attributes.get? name)

def metadataOf (s : Snapshot) (number : Nat) (name : String) : Except Error (Option Numeric) :=
  if (s.metadata.schema.indexOf? name).isNone then
    .error (.config s!"unknown metadata column '{name}'")
  else .ok (if (s.id? number).isSome then s.metadata.get? number name else none)

/-- The users who may see a document. -/
def accessOf (s : Snapshot) (number : Nat) : List String :=
  ((s.documents.get? number).map (·.access)).getD []

end Snapshot

end Concordance
