import Concordance.Number.Format
import Concordance.SortedMap
import Concordance.Term

/-!
# Analyzed documents

A document as the index takes it: named attributes, metadata values, term occurrences for search
and for the forward index, and the users who may see it. A metadata value is a signed integer, an
unsigned one or a double. Values of one representation compare exactly, others as doubles.
-/

namespace Concordance

/-! ## Numeric values -/

/-- A numeric value. -/
inductive Numeric where
  /-- A whole number of 64 bits with a sign. -/
  | int (n : Int)
  /-- A whole number of 64 bits without a sign. -/
  | uint (n : Nat)
  | double (x : Double)
  deriving Inhabited

namespace Numeric

def toDouble : Numeric → Double
  | int n => .ofInt n
  | uint n => .ofNat n
  | double x => x

/-- The value as a signed integer of 64 bits, if it has no fraction. A double outside the range is
clamped. -/
def toInt? : Numeric → Option Int
  | int n => some n
  | uint n => if n < Number.half64 then some n else none
  | double x => if x.isWhole then some x.toInt else none

def compare? : Numeric → Numeric → Option Ordering
  | int a, int b => some (compare a b)
  | uint a, uint b => some (compare a b)
  | a, b => a.toDouble.compare? b.toDouble

/-- The value as text. -/
def display : Numeric → String
  | int n => toString n
  | uint n => toString n
  | double x => Number.plain x

end Numeric

/-! ## Documents -/

/-- A document reduced to what the index stores. -/
structure Document where
  attributes : SortedMap String String := ∅
  metadata : SortedMap String Numeric := ∅
  search : List Occurrence := []
  forward : List Occurrence := []
  /-- The users who may see the document; nobody means no access entry. -/
  access : List String := []
  deriving Inhabited

namespace Document

/-- The greatest position used by occurrences of a type, 0 if there are none. -/
def lastPosition (type : String) (occurrences : List Occurrence) : Nat :=
  ((occurrences.filter (·.type == type)).map (·.position)).foldl max 0

/-- Occurrences of tokens at consecutive positions behind `start`. -/
def occurrencesOf (type : String) (start : Nat) : List String → List Occurrence
  | [] => []
  | token :: rest =>
    let position := saturatingAdd start 1
    ⟨type, token, position⟩ :: occurrencesOf type position rest

/-- Adds the words of a text to the search and the forward index, behind all positions that the
type has used so far. -/
def addText (doc : Document) (type text : String) : Document :=
  let start := lastPosition type (doc.search ++ doc.forward)
  let added := occurrencesOf type start (Text.words text)
  { doc with search := doc.search ++ added, forward := doc.forward ++ added }

end Document

end Concordance
