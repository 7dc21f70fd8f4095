import Concordance.Query.Call
import Concordance.Query.Feature

/-!
# Weighting functions

A weighting function gives a document a number, from the features that it has or from its metadata.
It is set up by a call and bound to a query, and then asked for document after document.
-/

namespace Concordance

/-- The settings of a BM25 function. -/
structure Bm25 where
  k1 : Double
  b : Double
  averageLength : Double
  /-- The column with the lengths of documents; without one all documents have average length. -/
  lengthColumn : Option String
  deriving Inhabited

/-- What a weighting function computes. -/
inductive Weight where
  /-- A constant, for every document or for every feature of a set that it has. -/
  | constant (weight : Double) (set : Option String)
  /-- The frequencies of features. -/
  | frequency (weight : Double) (set : String)
  /-- The value of a column. -/
  | metadata (column : String) (weight : Double)
  | bm25 (settings : Bm25) (set : String)
  deriving Inhabited

/-- A weighting function. -/
structure WeightFunction where
  weight : Weight
  /-- The name of the element that explains the weight. -/
  debugName : Option String
  deriving Inhabited

/-- The kinds of weighting functions. -/
inductive WeightKind where
  | constant
  | frequency
  | metadata
  | bm25
  deriving DecidableEq, Repr, Inhabited

/-- The least inverse document frequency. -/
def leastIdf : Double := 0.00001

/-- The inverse document frequency of a feature, from the number of documents and of those with the
feature. -/
def inverseDocumentFrequency (documents documentFrequency : Nat) : Double :=
  let n := Double.ofNat documents
  let df := Double.ofNat documentFrequency
  let idf := ((n - df + 0.5) / (df + 0.5)).log
  if idf.isNaN || idf < leastIdf then leastIdf else idf

namespace WeightFunction

/-- Sets a BM25 function up. -/
def makeBm25 (c : FunctionCall) : Except Error Weight := do
  c.checkKnown ["k1", "b", "avgdoclen", "metadata_doclen", "match"]
  let k1 ← c.number "k1" 1.5
  let b ← c.number "b" 0.75
  let averageLength ← c.number "avgdoclen" 500.0
  if k1 < 0.0 || b < 0.0 then throw (.config "bm25 parameters k1 and b must not be negative")
  if averageLength <= 0.0 then throw (.config "bm25 parameter avgdoclen must be positive")
  let set ← c.requiredFeatureSet "match" "bm25"
  let lengthColumn := (← c.text? "metadata_doclen").filter fun s => !s.isEmpty
  return .bm25 ⟨k1, b, averageLength, lengthColumn⟩ set

/-- Sets a weighting function up. -/
def make (kind : WeightKind) (c : FunctionCall) : Except Error WeightFunction := do
  let weight ← match kind with
    | .constant => do
      c.checkKnown ["weight", "match"]
      pure (.constant (← c.number "weight" 1.0) (← c.featureSet? "match"))
    | .frequency => do
      c.checkKnown ["weight", "match"]
      pure (.frequency (← c.number "weight" 1.0) (← c.requiredFeatureSet "match" c.name))
    | .metadata => do
      c.checkKnown ["name", "weight"]
      pure (.metadata (← c.requiredText "name") (← c.number "weight" 1.0))
    | .bm25 => makeBm25 c
  return ⟨weight, ← c.debugName?⟩

def name (f : WeightFunction) : String :=
  match f.weight with
  | .constant _ _ => "constant"
  | .frequency _ _ => "tf"
  | .metadata _ _ => "metadata"
  | .bm25 _ _ => "bm25"

/-- The text of a weighting function. -/
def describe (f : WeightFunction) : String :=
  let params := match f.weight with
    | .constant weight none => " weight=" ++ Number.plain weight
    | .constant weight (some set) => " weight=" ++ Number.plain weight ++ s!", match= %{set}"
    | .frequency weight set => " weight=" ++ Number.plain weight ++ s!", match= %{set}"
    | .metadata column weight => s!" name='{column}', weight=" ++ Number.plain weight
    | .bm25 s set =>
      " k1=" ++ Number.plain s.k1 ++ ", b=" ++ Number.plain s.b ++ ", avgdoclen=" ++
        Number.plain s.averageLength ++ ", metadata_doclen=" ++ s.lengthColumn.getD "" ++
        s!", match= %{set}"
  f.name ++ "(" ++ params ++ ")"

end WeightFunction

/-- A feature with its inverse document frequency. -/
structure Bm25Feature where
  feature : PlannedFeature
  idf : Double
  deriving Inhabited

/-- A weighting function bound to a query. -/
inductive BoundWeight where
  | constant (weight : Double) (features : Option (List PlannedFeature))
  | frequency (weight : Double) (features : List PlannedFeature)
  | metadata (index : Nat) (weight : Double)
  | bm25 (settings : Bm25) (lengthIndex : Option Nat) (features : List Bm25Feature)
  deriving Inhabited

def Weight.bind (c : QueryContext) : Weight → Except Error BoundWeight
  | .constant weight none => .ok (.constant weight none)
  | .constant weight (some set) => do return .constant weight (some (← c.featuresOf set))
  | .frequency weight set => do return .frequency weight (← c.featuresOf set)
  | .metadata column weight => do
    return .metadata (← c.columnIndex "metadata weighting: unknown column" column) weight
  | .bm25 settings set => do
    let lengthIndex ← settings.lengthColumn.mapM
      (c.columnIndex "bm25: unknown document length column")
    let features ← c.featuresOf set
    return .bm25 settings lengthIndex <| features.map fun f =>
      ⟨f, inverseDocumentFrequency c.documents f.documentFrequency⟩

/-- The sum of numbers from left to right; the empty sum is negative zero. -/
def sumOf (l : List Double) : Double := l.foldl (· + ·) (-0.0)

namespace Bm25

/-- What a document's length adds to the denominator. -/
def norm (s : Bm25) (relativeLength : Double) : Double := s.k1 * (1.0 - s.b + s.b * relativeLength)

/-- The share of a feature in the weight of a document that has it `frequency` times. -/
def contribution (s : Bm25) (norm : Double) (f : Bm25Feature) (frequency : Double) : Double :=
  f.feature.weight * f.idf * (frequency * (s.k1 + 1.0)) / (frequency + norm)

/-- The features that a document has, with their frequencies and their shares in its weight. -/
def shares (s : Bm25) (norm : Double) (features : List Bm25Feature) (number : Nat) :
    List (Bm25Feature × Double × Double) :=
  features.filterMap fun f =>
    if f.feature.occursIn number then
      let frequency := f.feature.frequencyIn number
      if frequency.isZero then none else some (f, frequency, s.contribution norm f frequency)
    else none

/-- The weight of a document: the sum of the shares. -/
def total (shares : List (Bm25Feature × Double × Double)) : Double :=
  shares.foldl (fun sum (_, _, share) => sum + share) 0.0

/-- How a share came about. -/
def explainShare (share : Bm25Feature × Double × Double) : String :=
  let (f, frequency, weight) := share
  "[" ++ f.feature.pattern.display ++ " ff=" ++ Number.plain frequency ++ " idf=" ++
    Number.fixed 5 f.idf ++ " w=" ++ Number.fixed 5 weight ++ "] "

end Bm25

namespace BoundWeight

/-- The shares of features in a BM25 weight. -/
def bm25Shares (s : Snapshot) (settings : Bm25) (lengthIndex : Option Nat)
    (features : List Bm25Feature) (number : Nat) : List (Bm25Feature × Double × Double) :=
  let relativeLength := match lengthIndex with
    | some index => (s.metadata.get number index).toDouble / settings.averageLength
    | none => 1.0
  settings.shares (settings.norm relativeLength) features number

def weigh (s : Snapshot) (number : Nat) : BoundWeight → Double
  | .constant weight none => weight
  | .constant weight (some features) =>
    weight * sumOf ((features.filter (·.occursIn number)).map (·.weight))
  | .frequency weight features =>
    (features.filter (·.occursIn number)).foldl
      (fun sum f => sum + f.weight * f.frequencyIn number) 0.0 * weight
  | .metadata index weight => weight * (s.metadata.get number index).toDouble
  | .bm25 settings lengthIndex features =>
    Bm25.total (bm25Shares s settings lengthIndex features number)

/-- How the weight of a document came about. -/
def explain (s : Snapshot) (number : Nat) (w : BoundWeight) : String :=
  let weight := Number.fixed 5 (w.weigh s number)
  match w with
  | .bm25 settings lengthIndex features =>
    let shares := bm25Shares s settings lengthIndex features number
    s!"bm25 {weight}: " ++ Text.trimEnd (String.join (shares.map Bm25.explainShare))
  | _ => weight

end BoundWeight

end Concordance
