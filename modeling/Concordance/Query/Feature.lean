import Concordance.Query.Planning

/-!
# Features

The patterns of a query are its features, each in a named set and with a weight. Functions see them
in a context: planned for the snapshot of the query, with the document frequencies to weigh them by.
-/

namespace Concordance

/-- A pattern in a feature set. -/
structure Feature where
  set : String
  pattern : Pattern
  weight : Double
  deriving Inhabited

namespace Feature

/-- The weight of a feature that says nothing else. -/
def defaultWeight : Double := 1.0

def ofJson (listed : Bool) (v : Json) : Option Feature := do
  match ← v.asFields ["set", "expression", "weight"] with
  | [set, pattern, weight] =>
    return {
      set := ← Json.requiredField Json.asText set
      pattern := ← Json.requiredField (Pattern.ofJson listed) pattern
      weight := ← Json.optionalField defaultWeight Json.asDouble weight }
  | _ => none

end Feature

/-- A feature made ready for a snapshot. -/
structure PlannedFeature where
  pattern : Pattern
  weight : Double
  documentFrequency : Nat
  plan : Plan
  deriving Inhabited

namespace PlannedFeature

def occursIn (f : PlannedFeature) (number : Nat) : Bool := f.plan.presentAt number

/-- How often a document has a feature. -/
def frequencyIn (f : PlannedFeature) (number : Nat) : Double :=
  .ofNat (f.plan.frequencyAt number)

end PlannedFeature

/-- What functions see of the query that they are part of. -/
structure QueryContext where
  snapshot : Snapshot
  features : List Feature
  /-- Document frequencies that count instead of those of the snapshot. -/
  termStatistics : SortedMap Term Nat
  /-- The number of documents to weigh by. -/
  documents : Nat
  deriving Inhabited

namespace QueryContext

/-- Makes a feature ready. -/
def planFeature (c : QueryContext) (f : Feature) : Except Error PlannedFeature := do
  let plan ← (f.pattern.plan c.snapshot).mapError PatternFault.toError
  let given := match f.pattern with
    | .term t => c.termStatistics.get? t
    | _ => none
  return ⟨f.pattern, f.weight, given.getD plan.documentFrequency, plan⟩

/-- The features of a set, in the order of their definition. -/
def featuresOf (c : QueryContext) (set : String) : Except Error (List PlannedFeature) :=
  (c.features.filter (·.set == set)).mapM c.planFeature

/-- The place of a column; `what` says in the error who looks for it. -/
def columnIndex (c : QueryContext) (what name : String) : Except Error Nat :=
  match c.snapshot.metadata.schema.indexOf? name with
  | some index => .ok index
  | none => .error (.config (what ++ s!" '{name}'"))

end QueryContext

end Concordance
