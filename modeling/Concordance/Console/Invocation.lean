import Concordance.Console.Line
import Concordance.Number.Format
import Concordance.Text.Split
import Concordance.Wire.Varint

/-!
# Invocations

A command line names a task on a storage and says how its report is printed. Options of the report
stand before the name of the task, options of the task behind it. `Invocation.read?` answers nothing
for a line that is no proper use of the program.
-/

namespace Concordance.Console

/-- How reports are printed. -/
structure Presentation where
  /-- How much is said; from 1 on, reports have headings. -/
  verbosity : Nat := 1
  json : Bool := false
  /-- Whether JSON is spread over several lines. -/
  pretty : Bool := false
  deriving DecidableEq, Repr, Inhabited

/-- Which statistics are shown. -/
inductive StatisticsView where
  /-- Counts and names. -/
  | overview
  /-- The messages of all commits after a point in time. -/
  | changes (since : Option String)
  /-- The messages that announce the storage, or take it back. -/
  | totals (register : Bool)
  /-- The document frequency of a term. -/
  | frequency (term : Option String)
  deriving DecidableEq, Repr, Inhabited

/-- What is looked up. -/
inductive Lookup where
  /-- The number of a document. -/
  | number (key : Option String)
  /-- The id of a document. -/
  | id (key : Option String)
  /-- The forward index of a document, of one term type or of all. -/
  | forward (key : Option String) (type : Option String)
  /-- The users who may see a document. -/
  | access (key : Option String)
  /-- Selected values of all documents that pass the conditions. -/
  | browse (selectors conditions : List String)
  deriving DecidableEq, Repr, Inhabited

/-- What there is to do on a storage. -/
inductive Task where
  | create
  | destroy
  /-- Inserts the documents of a file, so many in each transaction. -/
  | insert (file : String) (update : Bool) (batch : Nat)
  | delete (ids : List String)
  /-- Evaluates the query of a file. -/
  | query (file : String) (minRank maxRanks : Option Nat) (debug dump : Bool)
  | statistics (view : StatisticsView)
  | inspect (lookup : Lookup)
  deriving DecidableEq, Repr, Inhabited

/-- A command: a task, the storage that it is about, and the form of the report. -/
structure Invocation where
  presentation : Presentation
  storage : String
  task : Task
  deriving DecidableEq, Repr, Inhabited

def flag (name : String) (letter : Option Char) : Choice := { name, letter }

def valued (name : String) (letter : Option Char) : Choice := { name, letter, valued := true }

/-- Whether a file can have this name. -/
def isFileName (s : String) : Bool := s ≠ ""

/-- The whole number that an option was given; nothing inside if it was not given. -/
def natOption? (name : String) (settings : List Setting) : Option (Option Nat) :=
  match value? name settings with
  | none => some none
  | some s => (Number.readNat Wire.word64 s).map some

/-! ## Presentation -/

/-- The options in front of a task. -/
def presentationChoices : List Choice := [
  { name := "verbose", letter := 'v', repeatable := true },
  flag "quiet" 'q',
  valued "format" 'f',
  flag "pretty" none]

/-- How loud a program can be. -/
def maxVerbosity : Nat := 255

/-- The verbosity of settings: 1 unless told to say more, or nothing. -/
def verbosityOf (settings : List Setting) : Nat :=
  if isGiven "quiet" settings then 0
  else max 1 (min (timesGiven "verbose" settings) maxVerbosity)

def presentation? (settings : List Setting) : Option Presentation := do
  let json ← match value? "format" settings with
    | none | some "human" => some false
    | some "json" => some true
    | some _ => none
  return { verbosity := verbosityOf settings, json, pretty := isGiven "pretty" settings }

/-! ## Tasks -/

/-- How many documents go into a transaction unless said otherwise. -/
def defaultBatch : Nat := 1000

/-- A task as the program knows it: its name, its options, and how it is read from the settings and
the words behind the storage. -/
structure TaskForm where
  name : String
  choices : List Choice := []
  read? : List Setting → List String → Option Task

/-- A task without options and words. -/
def plainForm (name : String) (task : Task) : TaskForm where
  name
  read? := fun _ words => if words.isEmpty then some task else none

def insertForm : TaskForm where
  name := "insert"
  choices := [flag "update" 'u', valued "batch-size" 'b']
  read? := fun settings words =>
    match words with
    | [file] => do
      if !isFileName file then none
      let batch ← natOption? "batch-size" settings
      return .insert file (isGiven "update" settings) (batch.getD defaultBatch)
    | _ => none

def deleteForm : TaskForm where
  name := "delete"
  read? := fun _ words => if words.isEmpty then none else some (.delete words)

def queryForm : TaskForm where
  name := "query"
  choices := [valued "min-rank" none, valued "max-nof-ranks" 'n', flag "debug" none, flag "dump" none]
  read? := fun settings words =>
    match words with
    | [file] => do
      if !isFileName file then none
      return .query file (← natOption? "min-rank" settings) (← natOption? "max-nof-ranks" settings)
        (isGiven "debug" settings) (isGiven "dump" settings)
    | _ => none

def view? (settings : List Setting) : Option StatisticsView :=
  match (value? "mode" settings).getD "summary" with
  | "summary" => some .overview
  | "update" => some (.changes (value? "since" settings))
  | "init" => some (.totals (!isGiven "deregister" settings))
  | "df" => some (.frequency (value? "term" settings))
  | _ => none

def statisticsForm : TaskForm where
  name := "stats"
  choices := [valued "mode" 'm', valued "since" none, valued "term" none, flag "deregister" none]
  read? := fun settings words => if words.isEmpty then (view? settings).map .statistics else none

/-- The selectors of a line: every value may name several, with commas between them. -/
def selectorsOf (settings : List Setting) : List String :=
  match valuesOf "select" settings with
  | [] => ["docid"]
  | values => values.flatMap (Text.splitAll ',')

def lookup? (settings : List Setting) (what : String) (key : Option String) : Option Lookup :=
  match what with
  | "docno" => some (.number key)
  | "docid" => some (.id key)
  | "forward" => some (.forward key (value? "type" settings))
  | "access" => some (.access key)
  | "browse" => some (.browse (selectorsOf settings) (valuesOf "where" settings))
  | _ => none

def inspectForm : TaskForm where
  name := "inspect"
  choices := [
    valued "type" 't',
    { name := "select", letter := 's', valued := true, repeatable := true },
    { name := "where", letter := 'c', valued := true, repeatable := true }]
  read? := fun settings words =>
    match words with
    | [what] => (lookup? settings what none).map .inspect
    | [what, key] => (lookup? settings what key).map .inspect
    | _ => none

def taskForms : List TaskForm :=
  [plainForm "create" .create, plainForm "destroy" .destroy, insertForm, deleteForm, queryForm,
    statisticsForm, inspectForm]

def Invocation.read? (arguments : List String) : Option Invocation := do
  let (settings, rest) ← readSettings presentationChoices none arguments
  if !wellGiven settings then none
  let presentation ← presentation? settings
  match rest with
  | [] => none
  | name :: rest => do
    let form ← taskForms.find? (·.name == name)
    let line ← readLine form.choices none rest
    if !wellGiven line.settings then none
    match line.words with
    | [] => none
    | storage :: words => return { presentation, storage, task := ← form.read? line.settings words }

end Concordance.Console
