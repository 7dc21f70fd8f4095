import Concordance.Query.Call
import Concordance.Query.Feature
import Concordance.Query.Phrase

/-!
# Summaries

A summarizer extracts from a ranked document what is shown of it: an attribute, a metadata value,
the forward index of a term type, or the phrase that matches best.
-/

namespace Concordance

/-- A named value of a document. -/
structure SummaryElement where
  name : String
  value : String
  weight : Double := 1.0
  /-- The place of the element in a group, -1 if it belongs to none. -/
  index : Int := -1
  deriving Inhabited

/-- The settings of a phrase summarizer. -/
structure PhraseSettings where
  type : String
  windowSize : Nat
  sentenceSize : Nat
  /-- How far behind the title a phrase may start for the title to be shown with it. -/
  paragraphSize : Nat
  /-- How many different features a phrase needs. -/
  cardinality : Nat
  /-- The share of documents above which a feature is too common to be looked for. -/
  maxFrequency : Double
  matchMark : Marker
  floatingMark : Marker
  phraseName : String
  titleName : String
  openingName : String
  matchSet : String
  titleSet : Option String
  deriving Inhabited

/-- What a summarizer extracts. -/
inductive Summary where
  | attr (name result : String)
  | column (name result : String)
  /-- The forward index of a type, at most so many entries. -/
  | forwardIndex (type result : String) (limit : Option Nat)
  | phrase (settings : PhraseSettings)
  deriving Inhabited

/-- A summarizer. -/
structure Summarizer where
  summary : Summary
  /-- The name of the element that explains the summary. -/
  debugName : Option String
  deriving Inhabited

/-- The kinds of summarizers. -/
inductive SummaryKind where
  | attr
  | column
  | forwardIndex
  | phrase
  deriving DecidableEq, Repr, Inhabited

namespace Summarizer

/-- A number of at least 1. -/
def positive (c : FunctionCall) (key : String) (default : Double) : Except Error Nat := do
  let x ← c.number key default
  if x < 1.0 then throw (.config s!"matchphrase: '{key}' must be at least 1")
  return x.toNat

def marker (c : FunctionCall) (key default : String) : Except Error Marker := do
  Marker.parse (← c.text key default)

/-- Sets a phrase summarizer up. -/
def makePhrase (c : FunctionCall) : Except Error Summary := do
  c.checkKnown ["type", "windowsize", "sentencesize", "paragraphsize", "cardinality", "maxdf",
    "matchmark", "floatingmark", "name_phrase", "name_para", "name_docstart", "match", "title"]
  let type ← c.requiredText "type"
  let windowSize ← positive c "windowsize" 30.0
  let sentenceSize ← positive c "sentencesize" 40.0
  let paragraphSize ← positive c "paragraphsize" 300.0
  let cardinality ← c.number "cardinality" 0.0
  let maxFrequency ← c.number "maxdf" 0.1
  let matchMark ← marker c "matchmark" ""
  let floatingMark ← marker c "floatingmark" "$... $ ..."
  let phraseName ← c.text "name_phrase" "phrase"
  let titleName ← c.text "name_para" "para"
  let openingName ← c.text "name_docstart" "docstart"
  let matchSet ← c.requiredFeatureSet "match" "matchphrase"
  let titleSet ← c.featureSet? "title"
  return .phrase {
    type, windowSize, sentenceSize, maxFrequency, matchMark, floatingMark, phraseName, titleName,
    openingName, matchSet, titleSet
    paragraphSize := paragraphSize % Wire.word32
    cardinality := cardinality.toNat }

/-- Sets a summarizer up. -/
def make (kind : SummaryKind) (c : FunctionCall) : Except Error Summarizer := do
  let named (key : String) : Except Error (String × String) := do
    c.checkKnown [key, "result"]
    let name ← c.requiredText key
    return (name, ← c.text "result" name)
  let summary ← match kind with
    | .attr => do
      let (name, result) ← named "name"
      pure (.attr name result)
    | .column => do
      let (name, result) ← named "name"
      pure (.column name result)
    | .forwardIndex => do
      c.checkKnown ["type", "result", "N"]
      let type ← c.requiredText "type"
      let result ← c.text "result" type
      let limit ← c.number "N" 0.0
      pure (.forwardIndex type result (if limit >= 1.0 then some limit.toNat else none))
    | .phrase => makePhrase c
  return ⟨summary, ← c.debugName?⟩

def name (s : Summarizer) : String :=
  match s.summary with
  | .attr _ _ => "attribute"
  | .column _ _ => "metadata"
  | .forwardIndex _ _ _ => "forwardindex"
  | .phrase _ => "matchphrase"

def describeMarker (m : Marker) : String := s!"({m.opening},{m.closing})"

/-- The parameters of a phrase summarizer as text. -/
def describePhrase (p : PhraseSettings) : String :=
  s!" type='{p.type}', matchmark=" ++ describeMarker p.matchMark ++ ", floatingmark=" ++
    describeMarker p.floatingMark ++ s!", name para={p.titleName}, name phrase={p.phraseName}, " ++
    s!"name docstart={p.openingName}, paragraphsize={p.paragraphSize}, " ++
    s!"sentencesize={p.sentenceSize}, windowsize={p.windowSize}, cardinality='{p.cardinality}', " ++
    "maxdf='" ++ Number.plain p.maxFrequency ++ s!"', match= %{p.matchSet}" ++
    match p.titleSet with
    | some title => s!", title= %{title}"
    | none => ""

def describe (s : Summarizer) : String :=
  let params := match s.summary with
    | .attr name result | .column name result => s!" name='{name}', result='{result}'"
    | .forwardIndex type result none => s!" type='{type}', result='{result}'"
    | .forwardIndex type result (some limit) => s!" type='{type}', result='{result}', N={limit}"
    | .phrase settings => describePhrase settings
  s.name ++ "(" ++ params ++ ")"

end Summarizer

/-- A summarizer bound to a query. -/
inductive BoundSummary where
  | attr (name result : String)
  | column (index : Nat) (result : String)
  | forwardIndex (type result : String) (limit : Option Nat)
  | phrase (settings : PhraseSettings) (features title : List PlannedFeature)
  deriving Inhabited

/-- Binds a summarizer to a query. A phrase is looked for with the features that are not too
common. -/
def Summary.bind (c : QueryContext) : Summary → Except Error BoundSummary
  | .attr name result => .ok (.attr name result)
  | .column name result => do
    return .column (← c.columnIndex "metadata summarizer: unknown column" name) result
  | .forwardIndex type result limit => .ok (.forwardIndex type result limit)
  | .phrase settings => do
    let most := settings.maxFrequency * Double.ofNat c.documents
    let features := (← c.featuresOf settings.matchSet).filter fun f =>
      Double.ofNat f.documentFrequency ≤ most
    let title ← match settings.titleSet with
      | some set => c.featuresOf set
      | none => pure []
    return .phrase settings features title

namespace PhraseSettings

/-- The hits of features in a document. -/
def hitsOf (features : List PlannedFeature) (number : Nat) : List Phrase.Hit :=
  Phrase.sortHits <| features.zipIdx.flatMap fun (f, i) =>
    (f.plan.spansAt number).map fun span => ⟨span, i⟩

/-- The first match of the title in a document. -/
def titleSpan? (title : List PlannedFeature) (number : Nat) : Option Span :=
  (title.filterMap fun f => (f.plan.spansAt number).head?).mergeSort Span.precedes |>.head?

/-- The start of a document. -/
def openingElement (p : PhraseSettings) (tokens : List ForwardEntry) : List SummaryElement :=
  ((Phrase.opening? p.sentenceSize tokens).map fun e =>
    { name := p.openingName, value := Phrase.render p.matchMark p.floatingMark [] e }).toList

/-- The title of a document, if a phrase that starts at a position belongs to it. -/
def titleElement (p : PhraseSettings) (doc : StoredDocument) (title : Option Span)
    (phraseStart : Nat) : List SummaryElement :=
  match title with
  | none => []
  | some span =>
    if span.stop ≤ phraseStart ∧ phraseStart - span.stop ≤ p.paragraphSize then
      let value := doc.textBetween p.type span.start (span.stop - 1)
      if value.isEmpty then [] else [{ name := p.titleName, value }]
    else []

/-- The best window of sorted hits. Window sizes are numbers of 32 bits. -/
def bestWindow? (p : PhraseSettings) (hits : List Phrase.Hit) : Option Phrase.Window :=
  Phrase.bestWindow? (p.windowSize % Wire.word32) p.cardinality hits

/-- The phrase of a document that has some sorted hits, with the title if it belongs to that; the
start of the document if no phrase has enough features. -/
def present (p : PhraseSettings) (hits : List Phrase.Hit) (title : Option Span)
    (doc : StoredDocument) : List SummaryElement :=
  let tokens := doc.forwardTerms p.type
  match p.bestWindow? hits with
  | none => p.openingElement tokens
  | some w =>
    match Phrase.excerpt? p.sentenceSize w tokens with
    | none => p.openingElement tokens
    | some e =>
      let inside := hits.filter fun h => w.start ≤ h.span.start && h.span.start < w.stop
      let phraseStart := (e.tokens.head?.map (·.position)).getD 0
      p.titleElement doc title phraseStart ++ [{
        name := p.phraseName
        value := Phrase.render p.matchMark p.floatingMark inside e
        weight := Double.ofNat (Phrase.distinctFeatures inside) }]

/-- What is shown of a document: the phrase that matches the features best, with the title that it
belongs to. -/
def elements (p : PhraseSettings) (features title : List PlannedFeature) (doc : StoredDocument)
    (number : Nat) : List SummaryElement :=
  p.present (hitsOf features number) (titleSpan? title number) doc

end PhraseSettings

namespace BoundSummary

/-- The greatest index of an element. -/
def maxIndex : Int := 2147483647

def elements (s : Snapshot) (number : Nat) : BoundSummary → List SummaryElement
  | .attr name result =>
    match s.documents.get? number with
    | none => []
    | some doc =>
      match doc.attributes.get? name with
      | some value => [{ name := result, value }]
      | none => if name = "docid" then [{ name := result, value := doc.id }] else []
  | .column index result => [{ name := result, value := (s.metadata.get number index).display }]
  | .forwardIndex type result limit =>
    match s.documents.get? number with
    | none => []
    | some doc =>
      let entries := doc.forwardTerms type
      (entries.take (limit.getD entries.length)).map fun e =>
        { name := result, value := e.value, index := min e.position maxIndex }
  | .phrase settings features title =>
    match s.documents.get? number with
    | none => []
    | some doc => settings.elements features title doc number

end BoundSummary

end Concordance
