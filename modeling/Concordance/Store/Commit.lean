import Concordance.Store.Basic

/-!
# Commits

A commit executes the staged changes on the current snapshot one after the other, records them in
the journal, publishes the new snapshot, and writes a checkpoint when the journal has grown past the
cache size. What fails before the record is in the journal leaves the store as it was. A checkpoint
that cannot be written is given up; the journal still holds everything.
-/

namespace Concordance

/-- What a commit did. -/
structure CommitSummary where
  inserted : Nat := 0
  updated : Nat := 0
  deleted : Nat := 0
  /-- The timestamp of the commit, or of the one before if there was nothing to do. -/
  timestamp : Statistics.TimeStamp
  deriving DecidableEq, Repr, Inhabited

namespace Store

/-- Staged changes that were executed. -/
structure Execution where
  summary : CommitSummary
  operations : List Operation := []
  /-- The terms whose posting lists were gone through. -/
  touched : List Term := []
  snapshot : Snapshot
  deriving Inhabited

/-- The operation of a staged change, for the snapshot that it meets, and the count that it makes
in the summary. A new document is given its number. -/
def resolve (s : Snapshot) (summary : CommitSummary) :
    StagedOperation → Except Error (CommitSummary × Snapshot × Operation)
  | .insert id document update =>
    match s.number? id with
    | some number =>
      if update then
        .ok ({ summary with updated := summary.updated + 1 }, s, .insert number id document)
      else .error (.transaction s!"document '{id}' already exists and was not inserted as an update")
    | none =>
      let (number, numbering) := s.numbering.allocate id
      .ok ({ summary with inserted := summary.inserted + 1 }, { s with numbering },
        .insert number id document)
  | .delete id => .ok ({ summary with deleted := summary.deleted + 1 }, s, .delete id)
  | .deleteUser user => .ok (summary, s, .deleteUser user)
  | .define schema => .ok (summary, s, .define schema)
  | .alter alterations => .ok (summary, s, .alter alterations)

/-- Executes one staged change. -/
def executeOne (e : Execution) (staged : StagedOperation) : Except Error Execution := do
  let (summary, s, op) ← resolve e.snapshot e.summary staged
  let (touched, s) ← (s.apply op).mapError OperationFault.toError
  return {
    summary
    operations := e.operations ++ [op]
    touched := e.touched ++ touched
    snapshot := s }

/-- The snapshot that a commit starts from: the current one in the next generation, with the numbers
free that no reader refers to any more. -/
def successor (base : Snapshot) (oldestReader : Option Nat) : Snapshot :=
  { base with
    generation := base.generation + 1
    numbering := (base.numbering.reclaim oldestReader).2 }

/-- Executes staged changes. -/
def execute (base : Snapshot) (oldestReader : Option Nat) (staged : List StagedOperation) :
    Except Error Execution :=
  staged.foldlM executeOne
    { summary := { timestamp := base.timestamp }, snapshot := successor base oldestReader }

/-- How document frequencies changed between two snapshots, for some terms. -/
def frequencyChanges (base next : Snapshot) (terms : List Term) : List Statistics.Change :=
  (ascending terms).filterMap fun term =>
    let increment := (next.documentFrequency term : Int) - base.documentFrequency term
    if increment = 0 then none else some ⟨term, increment⟩

def statisticsOf (base next : Snapshot) (touched : List Term) (timestamp : Statistics.TimeStamp) :
    Statistics.Record where
  timestamp
  documents := (next.size : Int) - base.size
  changes := frequencyChanges base next touched

/-- A commit that is ready to be recorded. -/
structure Prepared where
  summary : CommitSummary
  record : CommitRecord
  next : Snapshot
  deriving Inhabited

/-- Prepares a commit. Without changes there is nothing to record, only a summary. -/
def prepare (base : Snapshot) (oldestReader : Option Nat) (now : Nat)
    (staged : List StagedOperation) : Except Error (CommitSummary ⊕ Prepared) := do
  let e ← execute base oldestReader staged
  if e.operations.isEmpty then return .inl e.summary
  let timestamp := base.timestamp.next now
  let next := { e.snapshot with timestamp }
  return .inr {
    summary := { e.summary with timestamp }
    record := {
      generation := next.generation
      timestamp
      operations := e.operations
      statistics := statisticsOf base next e.touched timestamp }
    next }

/-- Makes a prepared commit the current state. -/
def publish (s : Store) (p : Prepared) : Store :=
  { s with current := p.next, history := s.history.push p.record.statistics }

/-- Starts the journal over after a checkpoint. -/
def resetJournal (s : Store) (v : Volume) : Except Error Unit × Store × Volume :=
  match Journal.reset.run v with
  | (.ok journal, v) => (.ok (), { s with journal }, v)
  | (.error e, v) => (.error e, s, v)

/-- Writes a checkpoint if the journal has outgrown the cache. -/
def settle (s : Store) (v : Volume) : Except Error Unit × Store × Volume :=
  if s.journal.size ≤ s.config.cacheSize then (.ok (), s, v)
  else
    match (Checkpoint.write s.current s.history).run v with
    | (.ok (), v) => s.resetJournal v
    | (.error _, v) => (.ok (), s, v)

/-- Records and publishes a prepared commit. -/
def complete (s : Store) (p : Prepared) (v : Volume) : Except Error CommitSummary × Store × Volume :=
  match s.journal.append p.record v with
  | (.error e, journal, v) => (.error e, { s with journal }, v)
  | (.ok (), journal, v) =>
    let (r, s, v) := ({ s with journal }.publish p).settle v
    (r.map fun _ => p.summary, s, v)

/-- Commits staged changes when the clock reads `now` and the oldest open reader is of a given
generation. -/
def commit (s : Store) (oldestReader : Option Nat) (now : Nat) (staged : List StagedOperation)
    (v : Volume) : Except Error CommitSummary × Store × Volume :=
  match (do s.ensureOpen; prepare s.current oldestReader now staged) with
  | .error e => (.error e, s, v)
  | .ok (.inl summary) => (.ok summary, s, v)
  | .ok (.inr p) => s.complete p v

/-- Commits a transaction. It has ended afterwards, committed or aborted. -/
def commitTransaction (s : Store) (oldestReader : Option Nat) (now : Nat) (t : Transaction)
    (v : Volume) : Except Error CommitSummary × Transaction × Store × Volume :=
  match t.ensureActive with
  | .error fault => (.error fault.toError, t, s, v)
  | .ok () =>
    let (r, s, v) := s.commit oldestReader now t.staged v
    let state : TransactionState := if r.isOk then .committed else .aborted
    (r, { t with state, staged := [] }, s, v)

end Store

end Concordance
