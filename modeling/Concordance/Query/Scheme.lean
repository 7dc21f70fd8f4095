import Concordance.Query.Formula.Program
import Concordance.Query.Summary
import Concordance.Query.Weighting
import Concordance.Text.Printable

/-!
# Evaluation schemes

A scheme says how queries are evaluated: which feature sets select, restrict or exclude documents,
which functions and which formula weigh them, and what is shown of them. A registry finds weighting
functions and summarizers by name; the case of a name does not count.
-/

namespace Concordance

/-! ## Registries -/

/-- The functions that calls can name. -/
structure Registry where
  weights : SortedMap String WeightKind := ∅
  summaries : SortedMap String SummaryKind := ∅
  deriving Inhabited

namespace Registry

/-- Names a weighting function. -/
def addWeight (r : Registry) (name : String) (kind : WeightKind) : Registry :=
  { r with weights := r.weights.insert (Text.lowerAscii name) kind }

def addSummary (r : Registry) (name : String) (kind : SummaryKind) : Registry :=
  { r with summaries := r.summaries.insert (Text.lowerAscii name) kind }

/-- The registry of the functions of this library. -/
def standard : Registry where
  weights := .ofList [("bm25", .bm25), ("tf", .frequency), ("frequency", .frequency),
    ("metadata", .metadata), ("constant", .constant)]
  summaries := .ofList [("attribute", .attr), ("metadata", .column),
    ("forwardindex", .forwardIndex), ("matchphrase", .phrase)]

def weight (r : Registry) (c : FunctionCall) : Except Error WeightFunction :=
  match r.weights.get? (Text.lowerAscii c.name) with
  | some kind => WeightFunction.make kind c
  | none => .error (.config s!"unknown weighting function '{c.name}'")

def summarizer (r : Registry) (c : FunctionCall) : Except Error Summarizer :=
  match r.summaries.get? (Text.lowerAscii c.name) with
  | some kind => Summarizer.make kind c
  | none => .error (.config s!"unknown summarizer '{c.name}'")

def displayNames (names : List String) : String :=
  "[" ++ Text.join ", " (names.map Text.quoted) ++ "]"

def display (r : Registry) : String :=
  "FunctionRegistry \x7b weighting: " ++ displayNames r.weights.keys ++ ", summarizers: " ++
    displayNames r.summaries.keys ++ " \x7d"

end Registry

/-! ## Schemes -/

/-- How queries are evaluated. -/
structure Scheme where
  registry : Registry := .standard
  /-- Documents with a feature of these sets are candidates. -/
  selection : List String := []
  /-- Ranked documents have every feature of these sets. -/
  restriction : List String := []
  /-- Ranked documents have no feature of these sets. -/
  exclusion : List String := []
  /-- Features of every query. -/
  terms : List Feature := []
  /-- The functions whose results are the arguments of the formula. -/
  weights : List WeightFunction := []
  /-- How the results of the functions are combined; without a formula they are added. -/
  formula : Option Formula := none
  summarizers : List Summarizer := []
  deriving Inhabited

namespace Scheme

def select (s : Scheme) (set : String) : Scheme := { s with selection := s.selection ++ [set] }

def restrict (s : Scheme) (set : String) : Scheme := { s with restriction := s.restriction ++ [set] }

def exclude (s : Scheme) (set : String) : Scheme := { s with exclusion := s.exclusion ++ [set] }

/-- Adds a term to a feature set of every query. -/
def addTerm (s : Scheme) (set : String) (t : Term) : Scheme :=
  { s with terms := s.terms ++ [⟨set, .term t, Feature.defaultWeight⟩] }

def addWeight (s : Scheme) (c : FunctionCall) : Except Error Scheme := do
  return { s with weights := s.weights ++ [← s.registry.weight c] }

def addSummarizer (s : Scheme) (c : FunctionCall) : Except Error Scheme := do
  return { s with summarizers := s.summarizers ++ [← s.registry.summarizer c] }

def defineFormula (s : Scheme) (source : String) (defaults : SortedMap String Double) :
    Except Error Scheme := do
  let formula ← (Formula.compile source defaults).mapError Formula.SourceFault.toError
  return { s with formula := some formula }

/-- Refuses a formula that refers to more functions than there are. -/
def checkArity (s : Scheme) : Except Error Unit :=
  match s.formula with
  | none => .ok ()
  | some f =>
    if f.arity ≤ s.weights.length then .ok ()
    else .error (.config (s!"weighting formula '{f.source}' references _{f.arity - 1} but only " ++
      s!"{s.weights.length} weighting functions are defined"))

end Scheme

end Concordance
