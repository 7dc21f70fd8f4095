import Concordance.Catalog.Postings
import Concordance.Query.Arrangement
import Concordance.Query.Restriction

/-!
# Plans

A plan is a pattern made ready for one state of the index: terms stand with their posting lists and
columns with their places. It says for every document whether it is present in the plan and with
which matches. Cursors walk through the documents of a plan.
-/

namespace Concordance

/-- A pattern against one state of the index, or a set of documents. -/
inductive Plan where
  | nothing
  | term (postings : Postings)
  /-- A field between the positions in two columns; `total` is the number of documents. -/
  | field (start stop : Nat) (table : Table) (maxNumber total : Nat)
  /-- The documents of ascending lists. -/
  | access (lists : List (List Nat))
  /-- The documents of an ascending list. -/
  | documents (numbers : List Nat)
  /-- The documents of a plan whose metadata passes. -/
  | restricted (inner : Plan) (table : Table) (tests : List (List ColumnTest))
  | union (parts : List Plan)
  | intersection (parts : List Plan)
  /-- Documents with at least `need` of the parts. -/
  | presence (need : Nat) (parts : List Plan)
  | difference (kept dropped : Plan)
  | inside (inner outer : Plan)
  | sequence (mode : Succession) (parts : List Plan) (delimiter : Option Plan)
  /-- A window in which `need` of the parts start. -/
  | window (range need : Nat) (parts : List Plan) (delimiter : Option Plan)
  deriving Inhabited

namespace Plan

/-- A set of documents; there is no document 0. -/
def ofDocuments (numbers : List Nat) : Plan := .documents (ascending (numbers.filter (· ≠ 0)))

/-- Documents with so many of the parts, at least one. -/
def ofPresence (cardinality : Nat) (parts : List Plan) : Plan := .presence (max cardinality 1) parts

/-- A window with so many of the parts; 0 stands for all. -/
def ofWindow (range cardinality : Nat) (parts : List Plan) (delimiter : Option Plan) : Plan :=
  .window range (if cardinality = 0 then parts.length else cardinality) parts delimiter

/-! ## Matches in a document -/

/-- The spans of a term: its positions, each of length 1. There is no position 0. -/
def termSpans (positions : List Nat) : List Span :=
  (positions.filter (1 ≤ ·)).map fun p => ⟨p, 1⟩

/-- A position stored in a column: a whole number above 0, cut off at the last position. -/
def columnPosition? (table : Table) (number column : Nat) : Option Nat :=
  match (table.get number column).toInt? with
  | some n => if 0 < n then some (min n.toNat Wire.maxWord32) else none
  | none => none

/-- The field of a document. Without an end it goes on to the last position. -/
def fieldSpan? (table : Table) (number start stop : Nat) : Option Span :=
  match columnPosition? table number start with
  | none => none
  | some first =>
    match columnPosition? table number stop with
    | none => some ⟨first, Wire.maxWord32 - first⟩
    | some last => if first < last then some ⟨first, last - first⟩ else none

/-- The spans of the first list that start where a span of each other list starts. -/
def sharedSpans : List (List Span) → List Span
  | [] => []
  | first :: rest =>
    Span.normalize (first.filter fun s => rest.all fun spans => spans.any (·.start = s.start))

/-- A list of matches; no matches at all are nothing. -/
def nonEmpty (spans : List Span) : Option (List Span) := if spans.isEmpty then none else some spans

/-- The matches of those of some plans that hold a document, if there are enough of them. -/
def gather (need : Nat) (found : List (Option (List Span))) : Option (List Span) :=
  let present := found.filterMap id
  if need ≤ present.length then some (Span.normalize present.flatten) else none

mutual

/-- The matches of a plan in a document by start, nothing if the document is not present. Sets of
documents, and the plans built on them, may hold a document without a match. -/
def matchesAt (number : Nat) : Plan → Option (List Span)
  | .nothing => none
  | .term postings => (postings.get? number).map termSpans
  | .field start stop table maxNumber _ =>
    if number ≤ maxNumber then (fieldSpan? table number start stop).map fun s => [s] else none
  | .access lists => if lists.any (·.contains number) then some [] else none
  | .documents numbers => if numbers.contains number then some [] else none
  | .restricted inner table tests =>
    if ColumnTest.allHold tests table number then matchesAt number inner else none
  | .union parts => gather 1 (matchesOfAll number parts)
  | .presence need parts => gather need (matchesOfAll number parts)
  | .intersection parts => nonEmpty (sharedSpans ((matchesOfAll number parts).map (·.getD [])))
  | .difference kept dropped =>
    let excluded := (matchesAt number dropped).getD []
    nonEmpty (((matchesAt number kept).getD []).filter fun s => excluded.all (·.start ≠ s.start))
  | .inside inner outer =>
    let enclosing := (matchesAt number outer).getD []
    nonEmpty (((matchesAt number inner).getD []).filter fun s => enclosing.any (·.encloses s))
  | .sequence mode parts delimiter =>
    nonEmpty (Span.normalize
      (mode.spans ((matchesOfAll number parts).map (·.getD [])) (cutsAt number delimiter)))
  | .window range need parts delimiter =>
    nonEmpty
      (Window.spans ((matchesOfAll number parts).map (·.getD [])) range need (cutsAt number delimiter))

/-- The matches of plans in a document. -/
def matchesOfAll (number : Nat) : List Plan → List (Option (List Span))
  | [] => []
  | p :: rest => matchesAt number p :: matchesOfAll number rest

/-- The matches of a delimiter in a document. -/
def cutsAt (number : Nat) : Option Plan → List Span
  | none => []
  | some delimiter => (matchesAt number delimiter).getD []

end

-- the equations, derived once for all that is proved from them
attribute [grind =] matchesAt matchesOfAll cutsAt

/-- The spans of a plan in a document. -/
def spansAt (p : Plan) (number : Nat) : List Span := (matchesAt number p).getD []

/-- Whether a document is present in a plan. -/
def presentAt (p : Plan) (number : Nat) : Bool := (matchesAt number p).isSome

/-- How many matches a document has; of a term also those at position 0 count. -/
def frequencyAt (number : Nat) : Plan → Nat
  | .restricted inner _ _ => frequencyAt number inner
  | .term postings => ((postings.get? number).map List.length).getD 0
  | p => (p.spansAt number).length

mutual

/-- A number that no document of a plan is above. -/
def bound : Plan → Nat
  | .nothing => 0
  | .term postings => (postings.toList.map (·.1)).foldl max 0
  | .field _ _ _ maxNumber _ => maxNumber
  | .access lists => lists.flatten.foldl max 0
  | .documents numbers => numbers.foldl max 0
  | .restricted inner _ _ => bound inner
  | .difference kept _ => bound kept
  | .inside inner _ => bound inner
  | .union parts | .intersection parts | .presence _ parts | .sequence _ parts _
  | .window _ _ parts _ => boundOfAll parts

/-- A number that no document of any of the plans is above. -/
def boundOfAll : List Plan → Nat
  | [] => 0
  | p :: rest => max (bound p) (boundOfAll rest)

end

-- the equations, derived once for all that is proved from them
attribute [grind =] bound boundOfAll

/-! ## Estimates -/

/-- The `n`-th greatest of some numbers, counted from 1; 0 if there are fewer. -/
def nthGreatest (n : Nat) (numbers : List Nat) : Nat :=
  ((numbers.mergeSort (· ≥ ·))[n - 1]?).getD 0

/-- The least of some numbers, 0 if there are none. -/
def leastOf (numbers : List Nat) : Nat := numbers.min?.getD 0

mutual

/-- About how many documents are present: exactly for a term; for a structure, what can be said from
the numbers of its parts. -/
def documentFrequency : Plan → Nat
  | .nothing => 0
  | .term postings => postings.documentFrequency
  | .field _ _ _ _ total => total
  | .access lists => (lists.map List.length).foldl max 0
  | .documents numbers => numbers.length
  | .restricted inner _ _ => documentFrequency inner
  | .union parts => Number.total (frequenciesOfAll parts)
  | .intersection parts | .sequence _ parts _ => leastOf (frequenciesOfAll parts)
  | .difference kept _ => documentFrequency kept
  | .inside inner _ => documentFrequency inner
  | .presence need parts =>
    if need ≤ 1 then Number.total (frequenciesOfAll parts) else nthGreatest need (frequenciesOfAll parts)
  | .window _ need parts _ => nthGreatest need (frequenciesOfAll parts)

def frequenciesOfAll : List Plan → List Nat
  | [] => []
  | p :: rest => documentFrequency p :: frequenciesOfAll rest

end

end Plan

end Concordance
