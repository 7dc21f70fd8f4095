import Concordance.Document.Basic

/-!
# Stored documents

What the index keeps of a document besides postings and metadata: attributes, the forward index by
term type in position order, the search terms with their ascending positions, and the users who may
see it.
-/

namespace Concordance

/-- An entry of the forward index. -/
structure ForwardEntry where
  position : Nat
  value : String
  deriving DecidableEq, Repr, Inhabited

/-- A document as it is stored. -/
structure StoredDocument where
  id : String
  attributes : SortedMap String String
  /-- The entries of each term type by position; entries of one position stay in supply order. -/
  forward : SortedMap String (List ForwardEntry)
  /-- The search terms with their positions, ascending. -/
  search : SortedMap Term (List Nat)
  /-- The users who may see the document, ascending. -/
  access : List String
  deriving DecidableEq, Inhabited

namespace StoredDocument

/-- Values collected under their keys, in the order of the list. -/
def groupBy {κ α : Type} [Ord κ] [Std.TransOrd κ] (pairs : List (κ × α)) : SortedMap κ (List α) :=
  pairs.foldl (fun m p => m.insert p.1 (m.getD p.1 [] ++ [p.2])) ∅

/-- The stored form of a document. Without access control the users are dropped. -/
def ofDocument (id : String) (doc : Document) (keepAccess : Bool) : StoredDocument where
  id
  attributes := doc.attributes
  forward :=
    (groupBy (doc.forward.map fun o => (o.type, (⟨o.position, o.value⟩ : ForwardEntry)))).map
      fun _ entries => entries.mergeSort fun a b => a.position ≤ b.position
  search := (groupBy (doc.search.map fun o => (o.term, o.position))).map fun _ => ascending
  access := if keepAccess then ascending doc.access else []

def forwardTerms (doc : StoredDocument) (type : String) : List ForwardEntry :=
  doc.forward.getD type []

/-- The words of a term type between two positions, both included. -/
def textBetween (doc : StoredDocument) (type : String) (first last : Nat) : String :=
  " ".intercalate <|
    ((doc.forwardTerms type).filter fun e => first ≤ e.position && e.position ≤ last).map (·.value)

end StoredDocument

end Concordance
