import Concordance.Query.Filters
import Concordance.Query.Ranking
import Concordance.Query.Scheme

/-!
# Queries

A query belongs to a scheme and a snapshot. It is built up feature by feature, and evaluated: the
candidates are visited in the order of their numbers, those that pass all filters are weighed and
ranked, and a page of the ranking is summarized. After an evaluation a query cannot be changed any
more, but evaluated again.
-/

namespace Concordance

/-- Whether a query may still be changed. -/
inductive QueryState where
  | built
  | returned
  deriving DecidableEq, Repr, Inhabited

def QueryState.name : QueryState → String
  | .built => "built"
  | .returned => "returned"

/-- A query. -/
structure Query where
  scheme : Scheme
  snapshot : Snapshot
  state : QueryState := .built
  features : List Feature := []
  restriction : Restriction := {}
  /-- The only documents to rank, if there is such a choice. -/
  documentSet : Option (List Nat) := none
  /-- Document frequencies that count instead of those of the snapshot. -/
  termStatistics : SortedMap Term Nat := ∅
  /-- The number of documents that counts instead of that of the snapshot. -/
  documents : Option Nat := none
  maxRanks : Nat := 20
  minRank : Nat := 0
  /-- The users on whose behalf the query is made. -/
  users : List String := []
  /-- Variables of the formula that do not have their default values. -/
  bindings : SortedMap String Double := ∅
  /-- Whether functions explain their results. -/
  debug : Bool := false
  deriving Inhabited

/-- A document of a result. -/
structure Rank where
  number : Nat
  weight : Double
  summary : List SummaryElement
  deriving Inhabited

/-- The result of a query. -/
structure QueryResult where
  /-- The number of documents that passed all filters. -/
  ranked : Nat
  /-- The number of candidates. -/
  visited : Nat
  ranks : List Rank
  deriving Inhabited

namespace Query

/-! ## Building -/

def create (scheme : Scheme) (snapshot : Snapshot) : Except Error Query := do
  scheme.checkArity
  return { scheme, snapshot }

/-- Refuses a change of a query that was evaluated. -/
def ensureBuilt (q : Query) (operation : String) : Except Error Unit :=
  if q.state = .built then .ok ()
  else .error (.invalidOperation
    s!"{operation} is not allowed on a query in state {q.state.name}")

def addFeature (q : Query) (f : Feature) : Except Error Query := do
  q.ensureBuilt "define_feature"
  let _ ← (f.pattern.plan q.snapshot).mapError PatternFault.toError
  return { q with features := q.features ++ [f] }

/-- Adds a condition on metadata. -/
def addCondition (q : Query) (c : Condition) (newGroup : Bool) : Except Error Query := do
  q.ensureBuilt "add_metadata_restriction_condition"
  return { q with restriction := q.restriction.add c newGroup }

/-- Adds documents to those that are ranked alone. -/
def addDocuments (q : Query) (numbers : List Nat) : Except Error Query := do
  q.ensureBuilt "add_document_evaluation_set"
  return { q with documentSet := some (q.documentSet.getD [] ++ numbers) }

def setTermStatistics (q : Query) (t : Term) (frequency : Nat) : Except Error Query := do
  q.ensureBuilt "define_term_statistics"
  return { q with termStatistics := q.termStatistics.insert t frequency }

/-- Sets the number of documents. -/
def setDocuments (q : Query) (documents : Nat) : Except Error Query := do
  q.ensureBuilt "define_global_statistics"
  return { q with documents := some documents }

def setMaxRanks (q : Query) (maxRanks : Nat) : Except Error Query := do
  q.ensureBuilt "set_max_nof_ranks"
  return { q with maxRanks }

def setMinRank (q : Query) (minRank : Nat) : Except Error Query := do
  q.ensureBuilt "set_min_rank"
  return { q with minRank }

/-- Adds a user. Without access control users make no difference. -/
def addUser (q : Query) (user : String) : Except Error Query := do
  q.ensureBuilt "add_access"
  return { q with users := q.users ++ [user] }

/-- Sets variables of the formula. -/
def setVariables (q : Query) (bindings : SortedMap String Double) : Except Error Query := do
  q.ensureBuilt "set_weighting_variables"
  match q.scheme.formula with
  | some f => let _ ← f.bind bindings
  | none =>
    match bindings.keys with
    | name :: _ => throw (.config s!"variable '{name}' defined but no weighting formula")
    | [] => pure ()
  return { q with bindings }

def setDebug (q : Query) (debug : Bool) : Except Error Query := do
  q.ensureBuilt "set_debug_mode"
  return { q with debug }

/-! ## Evaluation -/

/-- All features, those of the scheme first. -/
def allFeatures (q : Query) : List Feature := q.scheme.terms ++ q.features

/-- What the functions of a query see. -/
def context (q : Query) : QueryContext where
  snapshot := q.snapshot
  features := q.allFeatures
  termStatistics := q.termStatistics
  documents := q.documents.getD q.snapshot.size

/-- The features of several sets, set by set. -/
def featuresOfSets (c : QueryContext) (sets : List String) : Except Error (List PlannedFeature) := do
  return (← sets.mapM c.featuresOf).flatten

/-- The filters of a query, in front of all candidates. -/
def filters (q : Query) (c : QueryContext) : Except Error Filters := do
  let restrictions ← featuresOfSets c q.scheme.restriction
  let exclusions ← featuresOfSets c q.scheme.exclusion
  let tests ← q.restriction.resolve c.snapshot.metadata.schema
  let access :=
    if c.snapshot.accessControl && !q.users.isEmpty then
      some (Plan.access (c.snapshot.access.listsFor q.users))
    else none
  return {
    access := access.map .start
    documentSet := q.documentSet.map fun numbers => .start (.ofDocuments numbers)
    tests
    restrictions := restrictions.map fun f => .start f.plan
    exclusions := exclusions.map fun f => .start f.plan }

/-- How candidates are weighed. -/
structure Weigher where
  weights : List BoundWeight
  formula : Option Formula
  values : List Double
  deriving Inhabited

/-- Binds the weighting functions and the formula of a query. -/
def weigher (q : Query) (c : QueryContext) : Except Error Weigher := do
  let weights ← q.scheme.weights.mapM fun f => f.weight.bind c
  let values ← match q.scheme.formula with
    | some f => f.bind q.bindings
    | none => pure []
  return { weights, formula := q.scheme.formula, values }

/-- The weight of a document: the value of the formula, or the sum of all results. -/
def Weigher.weigh (w : Weigher) (s : Snapshot) (number : Nat) : Except Error Double :=
  let results := w.weights.map (·.weigh s number)
  match w.formula with
  | some f => f.evaluate results w.values
  | none => .ok (sumOf results)

/-- An evaluation on its way through the candidates. -/
structure Evaluation where
  selection : Walker
  filters : Filters
  ranking : Ranking
  /-- How many candidates were visited. -/
  visited : Nat := 0
  deriving Inhabited

/-- Weighs a candidate that passes and puts it into the ranking. -/
def visit (w : Weigher) (s : Snapshot) (e : Evaluation) (number : Nat) :
    Except Error Evaluation := do
  let (accepted, filters) := e.filters.accept s.metadata number
  let e := { e with filters, visited := e.visited + 1 }
  if accepted then
    return { e with ranking := e.ranking.collect ⟨number, ← w.weigh s number⟩ }
  else return e

/-- Visits all candidates from a number on, at most `fuel` of them. -/
def visitFrom (w : Weigher) (s : Snapshot) :
    (fuel : Nat) → Evaluation → (number : Nat) → Except Error Evaluation
  | 0, e, _ => .ok e
  | fuel + 1, e, number =>
    let e := { e with selection := e.selection.seek number }
    match e.selection.document with
    | none => .ok e
    | some d => do visitFrom w s fuel (← visit w s e d) (d + 1)

/-- Visits all candidates, the documents with a selected feature. -/
def visitAll (w : Weigher) (s : Snapshot) (selected : List PlannedFeature) (filters : Filters)
    (capacity : Nat) : Except Error Evaluation :=
  let selection : Plan := .union (selected.map (·.plan))
  visitFrom w s (selection.bound + 2)
    { selection := .start selection, filters, ranking := { capacity } } 1

/-- The element that explains the result of a summarizer. -/
def summaryNote (s : Summarizer) (elements : List SummaryElement) : List SummaryElement :=
  match s.debugName with
  | some name => [{ name, value := s.describe ++ s!": {elements.length} elements" }]
  | none => []

/-- The element that explains the result of a weighting function. -/
def weightNote (s : Snapshot) (number : Nat) (f : WeightFunction × BoundWeight) :
    List SummaryElement :=
  match f.1.debugName with
  | some name => [{ name, value := f.2.explain s number, weight := f.2.weigh s number }]
  | none => []

def summarize (q : Query) (weights : List BoundWeight)
    (summaries : List (Summarizer × BoundSummary)) (number : Nat) : List SummaryElement :=
  let shown := summaries.flatMap fun (s, bound) =>
    let elements := bound.elements q.snapshot number
    (if q.debug then summaryNote s elements else []) ++ elements
  let notes :=
    if q.debug then (q.scheme.weights.zip weights).flatMap (weightNote q.snapshot number) else []
  shown ++ notes

/-- Ranks the candidates and summarizes the page asked for. -/
def run (q : Query) : Except Error QueryResult := do
  let c := q.context
  let selected ← featuresOfSets c q.scheme.selection
  let filters ← q.filters c
  let weigher ← q.weigher c
  let e ← visitAll weigher q.snapshot selected filters (q.minRank + q.maxRanks)
  let summaries ← q.scheme.summarizers.mapM fun s => return (s, ← s.summary.bind c)
  return {
    ranked := e.ranking.collected
    visited := e.visited
    ranks := ((e.ranking.best.drop q.minRank).take q.maxRanks).map fun r =>
      ⟨r.number, r.weight, q.summarize weigher.weights summaries r.number⟩ }

/-- Evaluates a query. One that fails may be changed again. -/
def evaluate (q : Query) : Except Error QueryResult × Query :=
  match q.run with
  | .ok result => (.ok result, { q with state := .returned })
  | .error e => (.error e, { q with state := .built })

/-! ## Text -/

/-- The lines of the text of a query. -/
def lines (q : Query) : List String :=
  let s := q.scheme
  ["query evaluation program:"] ++
  s.selection.map (s!"SELECT {·};") ++
  s.restriction.map (s!"RESTRICT {·};") ++
  s.exclusion.map (s!"EXCLUDE {·};") ++
  s.weights.map (fun f => "EVAL " ++ f.describe ++ ";") ++
  s.formula.toList.map (fun f => s!"FORMULA {f.source};") ++
  s.summarizers.map (fun f => "SUMMARIZE " ++ f.describe ++ ";") ++
  q.allFeatures.flatMap (fun f =>
    [s!"feature '{f.set}' " ++ Number.fixed 5 f.weight ++ ":", "  " ++ f.pattern.display]) ++
  (if q.restriction.isEmpty then [] else ["restriction: " ++ q.restriction.display]) ++
  q.documentSet.toList.map (fun l => "evaluation set: " ++ Text.join " " (l.map toString)) ++
  q.termStatistics.toList.map (fun (t, n) => "term statistics " ++ t.display ++ s!": df={n}") ++
  q.documents.toList.map (s!"global statistics: nofdocs={·}") ++
  q.bindings.toList.map (fun (name, x) => s!"variable {name} = " ++ Number.plain x) ++
  [s!"maxNofRanks = {q.maxRanks}", s!"minRank = {q.minRank}"] ++
  (if q.users.isEmpty then [] else ["user: " ++ Text.join ", " q.users])

def display (q : Query) : String := String.join (q.lines.map (· ++ "\n"))

end Query

end Concordance
