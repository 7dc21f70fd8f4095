import Concordance.Disk.FileTree
import Concordance.Query.Browser
import Concordance.Query.Session
import Concordance.Store.Commit

/-!
# Workspaces

A configuration with a path names a directory of the file tree, one without a path a storage in
memory. A `LocatedStore` is a store together with its volume. Before each piece of work the volume
of a directory is taken from the tree, and afterwards it is put back.

A workspace is a file tree together with everything that a process has open on it: one store in use,
stores that were in use before, and transactions, snapshots, queries and browsers under names. Each
of them belongs to a store, and goes on with it after another store has come into use. Snapshots,
queries and browsers are the readers of their store: a commit leaves alone the document numbers that
one of them may refer to.
-/

namespace Concordance

/-! ## Stores in a file tree -/

/-- A store and the volume that it is kept on. -/
structure LocatedStore where
  store : Store
  volume : Volume
  deriving Inhabited

namespace LocatedStore

/-- Does work on a volume of the tree. -/
def onVolume {α : Type} (v : Volume) (work : Disk α) : Filing (α × Volume) := fun t =>
  let (r, v) := work.run (t.refresh v)
  (r.map (·, v), t.put v)

/-- The path of the configuration of a storage. -/
def configPath (path : String) : String := Path.join path configFile

/-- Whether there is a storage; there is never one in memory. -/
def exists? (config : Config) (t : FileTree) : Bool :=
  match config.path with
  | some path => t.isFile (configPath path)
  | none => false

/-- Sets up a storage where there is none. -/
def create (config : Config) : Filing LocatedStore := do
  if exists? config (← get) then
    throw (.config ("storage already exists at " ++ config.path.getD ""))
  let (store, volume) ← onVolume (← FileTree.openVolume config.path) (Store.create config)
  return { store, volume }

/-- The path of a storage that has to be there for an operation. -/
def existingPath (config : Config) (operation : String) (t : FileTree) : Except Error String :=
  match config.path with
  | none => .error (.config s!"{operation} a storage requires a path")
  | some path =>
    if exists? config t then .ok path
    else .error (.config s!"storage does not exist at {path}")

def «open» (config : Config) : Filing LocatedStore := do
  let _ ← ofExcept (existingPath config "opening" (← get))
  let (store, volume) ← onVolume (← FileTree.openVolume config.path) (Store.open config)
  return { store, volume }

/-- Removes a storage with all its files. -/
def destroy (config : Config) : Filing Unit := do
  let path ← ofExcept (existingPath config "destroying" (← get))
  let (r, t) := (← get).removeFolder path
  set t
  ofExcept (r.mapError PathFault.toError)

def close (l : LocatedStore) (t : FileTree) : Except Error Unit × LocatedStore × FileTree :=
  let (r, store, volume) := l.store.close (t.refresh l.volume)
  (r, { store, volume }, t)

def commit (l : LocatedStore) (oldestReader : Option Nat) (now : Nat) (txn : Transaction)
    (t : FileTree) : Except Error CommitSummary × Transaction × LocatedStore × FileTree :=
  let (r, txn, store, volume) := l.store.commitTransaction oldestReader now txn (t.refresh l.volume)
  (r, txn, { store, volume }, t.put volume)

end LocatedStore

/-! ## Workspaces -/

/-- Everything that is open on a file tree. -/
structure Workspace where
  files : FileTree := {}
  /-- All stores that were opened, under keys. -/
  stores : SortedMap Nat LocatedStore := ∅
  /-- The key of the store in use. -/
  selected : Option Nat := none
  transactions : SortedMap String (Nat × Transaction) := ∅
  snapshots : SortedMap String (Nat × Snapshot) := ∅
  queries : SortedMap String (Nat × Query) := ∅
  browsers : SortedMap String (Nat × Browser) := ∅
  deriving Inhabited

/-- Why work on a workspace fails. -/
inductive WorkFault where
  /-- Nothing of a kind is there under the name. -/
  | absent (kind : String)
  | failed (error : Error)

/-- Work on a workspace: it may fail, and what it did up to there stays done. -/
abbrev Work (α : Type) := ExceptT WorkFault (StateM Workspace) α

namespace Workspace

/-! ## Readers -/

/-- The generations of the snapshots that readers of a store hold. -/
def heldGenerations (w : Workspace) (key : Nat) : List Nat :=
  let held : List (Nat × Snapshot) :=
    w.snapshots.values ++ w.queries.values.map (fun (k, q) => (k, q.snapshot)) ++
      w.browsers.values.map fun (k, b) => (k, b.snapshot)
  (held.filter (·.1 == key)).map (·.2.generation)

def oldestReader (w : Workspace) (key : Nat) : Option Nat := (w.heldGenerations key).min?

/-! ## The store in use -/

/-- The store in use, with its key. -/
def current? (w : Workspace) : Option (Nat × LocatedStore) :=
  w.selected.bind fun key => (w.stores.get? key).map (key, ·)

def use (w : Workspace) (l : LocatedStore) : Workspace :=
  { w with stores := w.stores.insert w.stores.size l, selected := some w.stores.size }

end Workspace

namespace Work

def ofResult {α : Type} : Except Error α → Work α
  | .ok a => pure a
  | .error e => throw (.failed e)

/-- Something that may not be there. -/
def need {α : Type} (kind : String) : Option α → Work α
  | some a => pure a
  | none => throw (.absent kind)

def onFiles {α : Type} (work : Filing α) : Work α := do
  let w ← get
  let (r, files) := work.run w.files
  set { w with files }
  ofResult r

/-- The store in use, with its key. -/
def store : Work (Nat × LocatedStore) := do need "storage" (← get).current?

/-- The snapshot of the store in use. -/
def snapshot : Work Snapshot := return (← store).2.store.current

/-- Sets up a storage and takes it into use. -/
def create (config : Config) : Work Unit := do
  let l ← onFiles (LocatedStore.create config)
  modify (·.use l)

/-- Opens a storage and takes it into use. -/
def «open» (config : Config) : Work Unit := do
  let l ← onFiles (LocatedStore.open config)
  modify (·.use l)

/-- Closes the store in use. -/
def close : Work Unit := do
  let (key, l) ← store
  let (r, l, files) := l.close (← get).files
  modify fun w => { w with files, stores := w.stores.insert key l }
  ofResult r

/-- The number of readers of the store in use. -/
def openReaders : Work Nat := do
  let (key, _) ← store
  return ((← get).heldGenerations key).length

/-! ## Transactions -/

/-- Starts a transaction on the store in use. -/
def begin (name id : String) : Work Unit := do
  let (key, l) ← store
  let txn ← ofResult (l.store.begin id)
  modify fun w => { w with transactions := w.transactions.insert name (key, txn) }

/-- A transaction, with the key of its store. -/
def transaction (name : String) : Work (Nat × Transaction) := do
  need "transaction" ((← get).transactions.get? name)

/-- Changes a transaction; its store says whether access is controlled. -/
def stage (name : String) (change : Bool → Transaction → Except StagingFault Transaction) :
    Work Unit := do
  let (key, txn) ← transaction name
  let l ← need "storage" ((← get).stores.get? key)
  let txn ← ofResult ((change l.store.config.accessControl txn).mapError StagingFault.toError)
  modify fun w => { w with transactions := w.transactions.insert name (key, txn) }

/-- Commits a transaction when the clock reads `now`. -/
def commit (name : String) (now : Nat) : Work CommitSummary := do
  let (key, txn) ← transaction name
  let w ← get
  let l ← need "storage" (w.stores.get? key)
  let (r, txn, l, files) := l.commit (w.oldestReader key) now txn w.files
  set { w with
    files
    stores := w.stores.insert key l
    transactions := w.transactions.insert name (key, txn) }
  ofResult r

/-! ## Readers -/

def keepSnapshot (name : String) : Work Unit := do
  let (key, l) ← store
  modify fun w => { w with snapshots := w.snapshots.insert name (key, l.store.current) }

/-- Starts a query of a scheme on the store in use, unless that is closed. -/
def makeQuery (name : String) (scheme : Scheme) : Work Unit := do
  let (key, l) ← store
  let q ← ofResult do
    l.store.ensureOpen
    Query.create scheme l.store.current
  modify fun w => { w with queries := w.queries.insert name (key, q) }

/-- Does something with a query. -/
def onQuery {α : Type} (name : String) (work : Query → Except Error α × Query) : Work α := do
  let (key, q) ← need "query" ((← get).queries.get? name)
  let (r, q) := work q
  modify fun w => { w with queries := w.queries.insert name (key, q) }
  ofResult r

/-- Starts a browser on the store in use. -/
def makeBrowser (name : String) : Work Unit := do
  let (key, l) ← store
  modify fun w => { w with browsers := w.browsers.insert name (key, { snapshot := l.store.current }) }

/-- Does something with a browser. -/
def onBrowser {α : Type} (name : String) (work : Browser → Except Error α × Browser) : Work α := do
  let (key, b) ← need "browser" ((← get).browsers.get? name)
  let (r, b) := work b
  modify fun w => { w with browsers := w.browsers.insert name (key, b) }
  ofResult r

/-! ## Dropping -/

/-- What a workspace holds under names. -/
inductive Kind where
  | transaction
  | snapshot
  | query
  | browser
  deriving DecidableEq, Repr

/-- Drops what is open under a name; answers whether there was something. -/
def drop (kind : Kind) (name : String) : Work Bool := do
  let w ← get
  match kind with
  | .transaction =>
    set { w with transactions := w.transactions.erase name }
    return w.transactions.contains name
  | .snapshot =>
    set { w with snapshots := w.snapshots.erase name }
    return w.snapshots.contains name
  | .query =>
    set { w with queries := w.queries.erase name }
    return w.queries.contains name
  | .browser =>
    set { w with browsers := w.browsers.erase name }
    return w.browsers.contains name

end Work

end Concordance
