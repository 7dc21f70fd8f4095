import Concordance.Console.QueryFile
import Concordance.Console.Report
import Concordance.Query.Browser
import Concordance.Statistics.Blob
import Concordance.Store.Workspace

/-!
# Doing tasks

A task is done on a file tree. What it did to the files before an error stays done, and so do the
notes that it made for the user.
-/

namespace Concordance.Console

/-- What a task works on. -/
structure Bench where
  files : FileTree := {}
  /-- What the user is told before the report. -/
  notes : String := ""
  deriving Inhabited

/-- Work on a task: it may fail, and what it did up to there stays done. -/
abbrev Job (α : Type) := ExceptT Error (StateM Bench) α

def onFiles {α : Type} (work : Filing α) : Job α := do
  let bench ← get
  let (r, files) := work.run bench.files
  set { bench with files }
  ofExcept r

/-- Something that has to be there. -/
def need {α : Type} (complaint : String) : Option α → Job α
  | some a => pure a
  | none => throw (.config complaint)

def readFile (path : String) : Job (List UInt8) := do
  ofExcept (((← get).files.read path).mapError PathFault.toError)

/-- The configuration that names a storage: a path, or settings with equals signs. -/
def configOf (storage : String) : Except Error Config :=
  if storage.contains '=' then Config.parse storage else .ok { path := storage }

/-- Opens the storage of a task. -/
def openStore (config : Config) : Job LocatedStore := onFiles (LocatedStore.open config)

/-- Closes the storage of a task. -/
def closeStore (l : LocatedStore) : Job Unit := onFiles fun files =>
  let (r, _, files) := l.close files
  (r, files)

/-! ## Changes -/

/-- Commits the changes that `stage` makes; there are no readers beside a task. -/
def commitStaged (now : Nat) (stage : Transaction → Except StagingFault Transaction)
    (l : LocatedStore) : Job (CommitSummary × LocatedStore) := do
  let txn ← ofExcept (l.store.begin "console")
  let txn ← ofExcept ((stage txn).mapError StagingFault.toError)
  let bench ← get
  let (r, _, l, files) := l.commit none now txn bench.files
  set { bench with files }
  return (← ofExcept r, l)

def stageDocuments (accessControl update : Bool) (documents : List (String × Document))
    (txn : Transaction) : Except StagingFault Transaction :=
  documents.foldlM (fun txn (id, d) => txn.stageDocument accessControl id d update) txn

/-- Commits batches of documents one after the other. -/
def commitBatches (now : Nat) (update : Bool) :
    List (List (String × Document)) → CommitTotals → LocatedStore →
      Job (CommitTotals × LocatedStore)
  | [], totals, l => return (totals, l)
  | batch :: rest, totals, l => do
    let (summary, l) ←
      commitStaged now (stageDocuments l.store.config.accessControl update batch) l
    commitBatches now update rest (totals.add summary) l

/-- The report of changes, once the storage is closed. -/
def reportCommits (heading : String) (totals : CommitTotals) (l : LocatedStore) : Job Report := do
  closeStore l
  return .commits heading totals l.store.current.size

def insertDocuments (now : Nat) (config : Config) (file : String) (update : Bool) (batch : Nat) :
    Job Report := do
  let l ← openStore config
  let documents ← ofExcept (DocumentFile.read file (← readFile file))
  let (totals, l) ← commitBatches now update (cut batch documents) {} l
  reportCommits "Documents inserted" totals l

/-- Deletes documents, all of them in one transaction. -/
def deleteDocuments (now : Nat) (config : Config) (ids : List String) : Job Report := do
  let l ← openStore config
  let (summary, l) ← commitStaged now (fun txn => ids.foldlM Transaction.stageDelete txn) l
  reportCommits "Documents deleted" (CommitTotals.add {} summary) l

/-! ## Queries -/

def evaluateQuery (config : Config) (file : String) (minRank maxRanks : Option Nat)
    (debug dump : Bool) : Job Report := do
  let s := (← openStore config).store.current
  let bytes ← readFile file
  let text ← ofExcept <| match Wire.textOfBytes? bytes with
    | some text => .ok text
    | none => .error (.io s!"{file} is not UTF-8")
  let described ← ofExcept (QueryFile.read text)
  let q ← ofExcept (do described.query (← described.scheme) s)
  let q := { q with
    minRank := (minRank <|> described.minRank).getD q.minRank
    maxRanks := (maxRanks <|> described.maxRanks).getD q.maxRanks
    debug }
  if dump then modify fun bench => { bench with notes := bench.notes ++ q.display }
  return .ranking (← ofExcept q.run) s.id?

/-! ## Looking at a storage -/

/-- Reads a term: its type, a colon and its value. -/
def parseTerm (s : String) : Except Error Term :=
  match Text.splitOnce ':' s with
  | some (type, value) => .ok ⟨type, value⟩
  | none => .error (.config s!"term '{s}' is not <type>:<value>")

/-- The messages of statistics, as a peer would read them. -/
def reportMessages (s : Store) (statistics : Statistics.Origin × List Statistics.Record) :
    Job Report := do
  let blobs := (s.messages statistics Statistics.Message.defaultMaxEntries).map
    Statistics.Blob.encode
  let messages ← ofExcept (blobs.mapM Statistics.Blob.read)
  return .messages messages (Number.total (blobs.map (·.length)))

def showStatistics (config : Config) (view : StatisticsView) : Job Report := do
  let l ← openStore config
  let s := l.store.current
  match view with
  | .overview => return .overview s.size s.maxNumber s.termTypes s.access.users
  | .frequency given =>
    let text ← need "--mode df requires --term <type>:<value>" given
    let t ← ofExcept (parseTerm text)
    return .rows [[("term", t.display), ("df", toString (s.documentFrequency t))]]
  | .totals register => reportMessages l.store (l.store.initialStatistics register)
  | .changes since =>
    let since ← ofExcept (since.mapM Statistics.TimeStamp.parse)
    reportMessages l.store (← ofExcept (l.store.updateStatistics since))

/-- Whether a character is part of a comparison. -/
def isComparisonSign (c : Char) : Bool := c = '<' || c = '>' || c = '=' || c = '!'

/-- Reads a condition: a column, a comparison and a number. -/
def parseCondition (s : String) : Except Error Condition := do
  let name := s.toList.takeWhile (!isComparisonSign ·)
  let rest := s.toList.dropWhile (!isComparisonSign ·)
  if rest.isEmpty then throw (.config s!"condition '{s}' has no operator")
  let symbol := rest.takeWhile isComparisonSign
  let value := Json.read? (Text.trim (.ofList (rest.dropWhile isComparisonSign)))
  let some value := value.bind Json.asReadable
    | throw (.config s!"condition '{s}' needs a numeric value")
  let column := Text.trim (.ofList name)
  let value ← numericOfJson column value
  return ⟨← Comparison.parse (.ofList symbol), column, value⟩

/-- The number of the document that a key means: the number itself if there is such a document, else
that of the id. -/
def numberOf (s : Snapshot) (key : Option String) : Job Nat := do
  let key ← need "a document id or number is required" key
  match (Number.readNat Wire.word32 key).filter fun n => (s.id? n).isSome with
  | some n => return n
  | none => need s!"unknown document '{key}'" (s.number? key)

/-- The rows of the documents from a number on that a browser shows. -/
def browseRows (b : Browser) (selectors : List Selector) : (fuel : Nat) → (start : Nat) → List Row
  | 0, _ => []
  | fuel + 1, start =>
    match b.next? start with
    | none => []
    | some n =>
      let row := (b.fetch n selectors).map fun values => values.map fun (s, x) => (s.display, x)
      row.toList ++ browseRows b selectors fuel (n + 1)

/-- The entries of a forward index as rows. -/
def forwardRows (s : Snapshot) (number : Nat) (type : String) : List Row :=
  (s.forwardTerms number type).map fun e =>
    [("type", type), ("pos", toString e.position), ("value", e.value)]

/-- Looks documents up. -/
def inspect (config : Config) (lookup : Lookup) : Job Report := do
  let s := (← openStore config).store.current
  match lookup with
  | .number key =>
    let id ← need "a document id is required" key
    let number ← need s!"unknown document id '{id}'" (s.number? id)
    return .rows [[("docno", toString number)]]
  | .id key =>
    let number ← numberOf s key
    return .rows [[("docid", (s.id? number).getD "")]]
  | .forward key type =>
    let number ← numberOf s key
    let types := match type with
      | some type => [type]
      | none => s.termTypes
    return .rows (types.flatMap (forwardRows s number))
  | .access key =>
    let number ← numberOf s key
    return .rows ((s.accessOf number).map fun user => [("user", user)])
  | .browse selectors conditions =>
    let selectors ← ofExcept (selectors.mapM Selector.parse)
    let b ← ofExcept (conditions.foldlM
      (fun (b : Browser) text => do b.restrict (← parseCondition text) true) { snapshot := s })
    return .rows (browseRows b selectors (s.maxNumber + 1) 1)

/-! ## Tasks -/

/-- Does the task of an invocation when the clock reads `now`. -/
def perform (now : Nat) (i : Invocation) : Job Report := do
  let config ← ofExcept (configOf i.storage)
  match i.task with
  | .create =>
    let l ← onFiles (LocatedStore.create config)
    closeStore l
    return .storage "Storage created" l.store.config
  | .destroy =>
    onFiles (LocatedStore.destroy config)
    return .storage "Storage destroyed" config
  | .insert file update batch => insertDocuments now config file update batch
  | .delete ids => deleteDocuments now config ids
  | .query file minRank maxRanks debug dump =>
    evaluateQuery config file minRank maxRanks debug dump
  | .statistics view => showStatistics config view
  | .inspect lookup => inspect config lookup

end Concordance.Console
