import Concordance.Error
import Concordance.Json.Basic
import Concordance.Json.Reader
import Concordance.Term
import Concordance.Text.Blank
import Concordance.Text.Split

/-!
# Patterns

A pattern says what to look for in a document: a term, a structure of smaller patterns, or a field
whose borders are positions stored in metadata columns.
-/

namespace Concordance

/-- The ways to put patterns together. -/
inductive Operator where
  /-- One after the other; the first and the last start at most `range` positions apart. -/
  | sequence
  /-- One directly after the other. -/
  | adjacentSequence
  /-- A sequence; the first pattern is a delimiter that must not start inside. -/
  | delimitedSequence
  /-- In any order inside a window of `range` positions. -/
  | window
  /-- A window; the first pattern is a delimiter that must not start inside. -/
  | delimitedWindow
  /-- At the positions of any pattern. -/
  | union
  /-- At the positions that all patterns share. -/
  | intersection
  /-- At the positions of the first pattern that the second does not have. -/
  | difference
  /-- The matches of the first pattern inside a match of the second. -/
  | inside
  /-- In documents where enough of the patterns occur. -/
  | presence
  deriving DecidableEq, Repr, Inhabited

namespace Operator

def name : Operator → String
  | sequence => "sequence"
  | adjacentSequence => "sequence_imm"
  | delimitedSequence => "sequence_struct"
  | window => "within"
  | delimitedWindow => "within_struct"
  | union => "union"
  | intersection => "intersect"
  | difference => "diff"
  | inside => "inside"
  | presence => "contains"

def all : List Operator :=
  [sequence, adjacentSequence, delimitedSequence, window, delimitedWindow, union, intersection,
    difference, inside, presence]

/-- The operator of an exact name. -/
def ofName? (s : String) : Option Operator := all.find? fun op => op.name == s

/-- Reads the name of an operator in any case. -/
def parse (s : String) : Except Error Operator :=
  let s := Text.lowerAscii (Text.trim s)
  match ofName? s with
  | some op => .ok op
  | none => .error (.config s!"unknown posting join operator '{s}'")

/-- Whether the first pattern is a delimiter. -/
def isDelimited : Operator → Bool
  | delimitedSequence | delimitedWindow => true
  | _ => false

end Operator

/-- What to look for in a document. -/
inductive Pattern where
  | term (term : Term)
  | structure (operator : Operator) (range cardinality : Nat) (parts : List Pattern)
  /-- From the position in a column up to the position in another one. -/
  | field (start stop : String)
  deriving Inhabited

namespace Pattern

mutual

def display : Pattern → String
  | .term t => t.display
  | .structure operator range cardinality parts =>
    let numbers :=
      if range = 0 ∧ cardinality = 0 then "" else s!"[range={range}, cardinality={cardinality}]"
    operator.name ++ numbers ++ "(" ++ Text.join ", " (displayAll parts) ++ ")"
  | .field start stop => s!"docfield({start}, {stop})"

def displayAll : List Pattern → List String
  | [] => []
  | p :: rest => display p :: displayAll rest

end

mutual

/-- The terms of a pattern from left to right, repeated ones included. -/
def occurringTerms : Pattern → List Term
  | .term t => [t]
  | .structure _ _ _ parts => occurringTermsOfAll parts
  | .field _ _ => []

def occurringTermsOfAll : List Pattern → List Term
  | [] => []
  | p :: rest => occurringTerms p ++ occurringTermsOfAll rest

end

/-- Keeps the first of equal terms. -/
def firstOccurrences : List Term → List Term
  | [] => []
  | t :: rest => t :: (firstOccurrences rest).filter (· ≠ t)

/-- The terms of a pattern in the order of their first occurrence. -/
def terms (p : Pattern) : List Term := firstOccurrences p.occurringTerms

/-! ## JSON form -/

mutual

def toJson : Pattern → Json
  | .term t => .object [("term", .object [("type", .text t.type), ("value", .text t.value)])]
  | .structure operator range cardinality parts =>
    .object [("structure", .object [("operator", .text operator.name), ("range", .ofNat range),
      ("cardinality", .ofNat cardinality), ("children", .array (toJsonAll parts))])]
  | .field start stop =>
    .object [("doc_field", .object [("start", .text start), ("end", .text stop)])]

def toJsonAll : List Pattern → List Json
  | [] => []
  | p :: rest => toJson p :: toJsonAll rest

end

/-- How deep patterns may be nested in JSON: every structure takes three levels of the text. -/
def maxNesting : Nat := Json.maxDepth

/-- Reads a pattern from JSON, nested at most `depth` deep. The fields of a node may also be given
as a list where `listed` says so. -/
def ofJsonAt (listed : Bool) : (depth : Nat) → Json → Option Pattern
  | 0, _ => none
  | depth + 1, v => do
    let (kind, content) ← v.asChoice
    let content ← content
    if content.isArray && !listed then none
    else
      match kind with
      | "term" =>
        match ← content.asFields ["type", "value"] with
        | [type, value] =>
          return .term ⟨← Json.requiredField Json.asText type,
            ← Json.requiredField Json.asText value⟩
        | _ => none
      | "structure" =>
        match ← content.asFields ["operator", "range", "cardinality", "children"] with
        | [operator, range, cardinality, parts] =>
          let name ← operator.bind Json.asName
          return .structure (← Operator.ofName? name)
            (← Json.optionalField 0 (Json.asNat Wire.word32) range)
            (← Json.optionalField 0 (Json.asNat Wire.word32) cardinality)
            (← Json.requiredField (Json.asList (ofJsonAt listed depth)) parts)
        | _ => none
      | "doc_field" =>
        match ← content.asFields ["start", "end"] with
        | [start, stop] =>
          return .field (← Json.requiredField Json.asText start)
            (← Json.requiredField Json.asText stop)
        | _ => none
      | _ => none

def ofJson (listed : Bool) (v : Json) : Option Pattern := ofJsonAt listed maxNesting v

end Pattern

end Concordance
