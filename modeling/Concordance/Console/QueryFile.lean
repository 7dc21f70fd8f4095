import Concordance.Document.Basic
import Concordance.Json.Basic
import Concordance.Json.Printer
import Concordance.Json.Reader
import Concordance.Query.Session
import Concordance.Text.Split
import Concordance.Wire.Reader
import Concordance.Wire.Varint

/-!
# Document and query files

A document file holds one document on each line, as a JSON object; blank lines say nothing. Texts
are given by term type, and their words go into both indexes behind the occurrences that are listed
one by one.

A query file describes a query as one JSON object: the scheme that it is evaluated by, its features,
conditions and users, and the page of the ranking that is wanted. Everything is optional.
-/

namespace Concordance.Console

/-! ## Documents -/

/-- A JSON number as a metadata value. -/
def numericOfJson (name : String) : Json → Except Error Numeric
  | .number (.natural n) => .ok (.uint n)
  | .number (.negative n) => .ok (.int n)
  | .number (.double x) => .ok (.double x)
  | v => .error (.config (s!"metadata '{name}' expects a number, got " ++ v.normalize.render))

/-- A line of a document file. -/
structure DocumentEntry where
  id : String
  attributes : SortedMap String String
  metadata : SortedMap String Json
  texts : SortedMap String String
  search : List Occurrence
  forward : List Occurrence
  access : List String
  deriving Inhabited

namespace DocumentEntry

def occurrenceOfJson (v : Json) : Option Occurrence := do
  match ← v.asFields ["term_type", "value", "position"] with
  | [type, value, position] =>
    return ⟨← Json.requiredField Json.asText type, ← Json.requiredField Json.asText value,
      ← Json.requiredField (Json.asNat Wire.word32) position⟩
  | _ => none

def ofJson (v : Json) : Option DocumentEntry := do
  match ← v.asFields
      ["docid", "attributes", "metadata", "text", "search", "forward", "access"] with
  | [id, attributes, metadata, texts, search, forward, access] =>
    return {
      id := ← Json.requiredField Json.asText id
      attributes := ← Json.optionalField ∅ (Json.asMap Json.asText) attributes
      metadata := ← Json.optionalField ∅ (Json.asMap Json.asReadable) metadata
      texts := ← Json.optionalField ∅ (Json.asMap Json.asText) texts
      search := ← Json.optionalField [] (Json.asList occurrenceOfJson) search
      forward := ← Json.optionalField [] (Json.asList occurrenceOfJson) forward
      access := ← Json.optionalField [] (Json.asList Json.asText) access }
  | _ => none

def read? (text : String) : Option DocumentEntry := (Json.read? text).bind ofJson

/-- The document of an entry; its metadata have to be numbers. -/
def document (e : DocumentEntry) : Except Error Document := do
  let metadata ← e.metadata.toList.mapM fun (name, v) => return (name, ← numericOfJson name v)
  let listed : Document := {
    attributes := e.attributes
    metadata := .ofList metadata
    search := e.search
    forward := e.forward
    access := e.access }
  return e.texts.toList.foldl (fun d (type, text) => d.addText type text) listed

end DocumentEntry

namespace DocumentFile

/-- The byte that ends a line. -/
def lineFeed : UInt8 := 10

/-- The document of a line with its id; nothing for a blank line. `place` says in errors where the
line is. -/
def readLine (place : String) (line : List UInt8) : Except Error (Option (String × Document)) :=
  match Wire.textOfBytes? line with
  | none => .error (.io "a line is not UTF-8")
  | some text =>
    if (Text.trim text).isEmpty then .ok none
    else
      match DocumentEntry.read? text with
      | none => .error (.config place)
      | some e => e.document.map fun d => some (e.id, d)

/-- The documents of a file with their ids. The first line that is wrong makes the error. -/
def read (path : String) (bytes : List UInt8) : Except Error (List (String × Document)) := do
  let entries ← (Text.splitList lineFeed bytes).zipIdx.mapM fun (line, i) =>
    readLine s!"{path}:{i + 1}" line
  return entries.filterMap id

end DocumentFile

/-! ## Queries -/

/-- A condition of a query file. -/
structure ConditionEntry where
  comparison : Comparison
  column : String
  value : Json
  /-- Whether it starts a group. -/
  newGroup : Bool

/-- A query as a file describes it. -/
structure QueryFile where
  selection : List String
  restriction : List String
  exclusion : List String
  features : List Feature
  weights : List FunctionCall
  formula : Option String
  bindings : SortedMap String Double
  summarizers : List FunctionCall
  conditions : List ConditionEntry
  users : List String
  minRank : Option Nat
  maxRanks : Option Nat
  deriving Inhabited

namespace ConditionEntry

def comparisonOfJson (v : Json) : Option Comparison := do
  let symbol ← v.asName
  Comparison.all.find? (·.symbol == symbol)

def ofJson (v : Json) : Option ConditionEntry := do
  match ← v.asFields ["op", "name", "value", "new_group"] with
  | [comparison, column, value, newGroup] =>
    return {
      comparison := ← Json.requiredField comparisonOfJson comparison
      column := ← Json.requiredField Json.asText column
      value := ← Json.requiredField Json.asReadable value
      newGroup := ← Json.optionalField false Json.asBool newGroup }
  | _ => none

/-- The condition; its value has to be a number. -/
def condition (e : ConditionEntry) : Except Error (Condition × Bool) := do
  return (⟨e.comparison, e.column, ← numericOfJson e.column e.value⟩, e.newGroup)

end ConditionEntry

namespace QueryFile

/-- The names of the fields, in their order. -/
def fieldNames : List String :=
  ["selection", "restriction", "exclusion", "features", "weighting", "formula", "variables",
    "summarizers", "conditions", "access", "min_rank", "max_nof_ranks"]

/-- Reads a list of texts that may be missing. -/
def textsField (field : Option Json) : Option (List String) :=
  Json.optionalField [] (Json.asList Json.asText) field

/-- Reads a whole number that may be missing. -/
def natField (field : Option Json) : Option (Option Nat) :=
  Json.optionalField none (Json.asOption (Json.asNat Wire.word64)) field

/-- Reads function calls that may be missing. -/
def callsField (field : Option Json) : Option (List FunctionCall) :=
  Json.optionalField [] (Json.asList FunctionCall.ofJson) field

def ofJson (v : Json) : Option QueryFile := do
  match ← v.asFields fieldNames with
  | [selection, restriction, exclusion, features, weights, formula, bindings, summarizers,
      conditions, users, minRank, maxRanks] =>
    return {
      selection := ← textsField selection
      restriction := ← textsField restriction
      exclusion := ← textsField exclusion
      features := ← Json.optionalField [] (Json.asList (Feature.ofJson true)) features
      weights := ← callsField weights
      formula := ← Json.optionalField none (Json.asOption Json.asText) formula
      bindings := ← Json.optionalField ∅ (Json.asMap Json.asDouble) bindings
      summarizers := ← callsField summarizers
      conditions := ← Json.optionalField [] (Json.asList ConditionEntry.ofJson) conditions
      users := ← textsField users
      minRank := ← natField minRank
      maxRanks := ← natField maxRanks }
  | _ => none

/-- Reads a description. -/
def read (text : String) : Except Error QueryFile :=
  match (Json.read? text).bind ofJson with
  | some file => .ok file
  | none => .error (.json "malformed query file")

/-- The scheme that the query is evaluated by. -/
def scheme (q : QueryFile) : Except Error Scheme := do
  let sets : Scheme := {
    selection := q.selection
    restriction := q.restriction
    exclusion := q.exclusion }
  let weighted ← q.weights.foldlM Scheme.addWeight sets
  let combined ← match q.formula with
    | some source => weighted.defineFormula source ∅
    | none => pure weighted
  q.summarizers.foldlM Scheme.addSummarizer combined

/-- The conditions on metadata, and which of them start a group. -/
def restrictions (q : QueryFile) : Except Error (List (Condition × Bool)) :=
  q.conditions.mapM ConditionEntry.condition

def query (q : QueryFile) (scheme : Scheme) (s : Snapshot) : Except Error Query := do
  let featured ← q.features.foldlM Query.addFeature (← Query.create scheme s)
  let restricted ← (← q.restrictions).foldlM (fun r (c, newGroup) => r.addCondition c newGroup)
    featured
  let entitled ← q.users.foldlM Query.addUser restricted
  if q.bindings.toList.isEmpty then return entitled
  else entitled.setVariables q.bindings

end QueryFile

end Concordance.Console
