import Concordance.Catalog.Snapshot
import Concordance.Query.Restriction

/-!
# Browsing

A browser walks through the documents of a snapshot by number, leaving out those whose metadata does
not pass a restriction, and fetches selected values of a document.
-/

namespace Concordance

/-- What to fetch from a document. -/
inductive Selector where
  | id
  | number
  | attr (name : String)
  | column (name : String)
  deriving DecidableEq, Repr

namespace Selector

/-- Reads a selector: `docid`, `docno`, `attribute:<name>` or `metadata:<name>`. -/
def parse (s : String) : Except Error Selector :=
  let unknown := Except.error (Error.config s!"unknown document selector '{s}'")
  match Text.splitOnce ':' s with
  | none =>
    match s with
    | "docid" => .ok id
    | "docno" => .ok number
    | _ => unknown
  | some (kind, name) =>
    if name.isEmpty then unknown
    else
      match kind with
      | "attribute" => .ok (attr name)
      | "metadata" => .ok (column name)
      | _ => unknown

def display : Selector → String
  | id => "docid"
  | number => "docno"
  | attr name => s!"attribute:{name}"
  | column name => s!"metadata:{name}"

def value? (s : Snapshot) (documentNumber : Nat) (doc : StoredDocument) : Selector → Option String
  | id => some doc.id
  | number => some (toString documentNumber)
  | attr name => doc.attributes.get? name
  | column name => (s.metadata.get? documentNumber name).map Numeric.display

end Selector

/-- A walk through the documents of a snapshot. -/
structure Browser where
  snapshot : Snapshot
  restriction : Restriction := {}
  tests : List (List ColumnTest) := []
  deriving Inhabited

namespace Browser

/-- Adds a condition; a condition on an unknown column changes nothing. -/
def restrict (b : Browser) (c : Condition) (newGroup : Bool) : Except Error Browser := do
  let restriction := b.restriction.add c newGroup
  let tests ← restriction.resolve b.snapshot.metadata.schema
  return { b with restriction, tests }

/-- The least number from a number on whose document passes. -/
def next? (b : Browser) (number : Nat) : Option Nat :=
  (b.snapshot.numbering.ids.keys).find? fun n =>
    max number 1 ≤ n && n ≤ b.snapshot.maxNumber && ColumnTest.allHold b.tests b.snapshot.metadata n

/-- The values of a document that it has of those selected. -/
def fetch (b : Browser) (number : Nat) (selectors : List Selector) :
    Option (List (Selector × String)) :=
  (b.snapshot.documents.get? number).map fun doc =>
    selectors.filterMap fun s => (s.value? b.snapshot number doc).map (s, ·)

end Browser

end Concordance
