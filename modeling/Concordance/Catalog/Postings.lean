import Concordance.Document.Stored
import Concordance.Wire.Reader

/-!
# Posting lists

The posting list of a term holds the documents that contain it, in ascending order, each with the
ascending positions of the term in it. In files, document numbers and positions are written as
gaps.
-/

namespace Concordance

/-- The documents of a term with the positions of the term in them. -/
structure Postings where
  byNumber : SortedMap Nat (List Nat) := ∅
  deriving DecidableEq, Inhabited

namespace Postings

instance : EmptyCollection Postings := ⟨{}⟩

/-- The documents and positions in document order. -/
def toList (p : Postings) : List (Nat × List Nat) := p.byNumber.toList

/-- The number of documents that contain the term. -/
def documentFrequency (p : Postings) : Nat := p.byNumber.size

/-- Whether no document contains the term. -/
def isEmpty (p : Postings) : Bool := p.byNumber.isEmpty

/-- The positions in a document. -/
def get? (p : Postings) (number : Nat) : Option (List Nat) := p.byNumber.get? number

/-- The first document from a number on, with its positions. -/
def firstFrom? (p : Postings) (number : Nat) : Option (Nat × List Nat) :=
  p.toList.find? fun e => number ≤ e.1

/-- Sets the positions in a document; they are put in order and repetitions are dropped. -/
def insert (p : Postings) (number : Nat) (positions : List Nat) : Postings :=
  ⟨p.byNumber.insert number (ascending positions)⟩

/-- Takes a document away. -/
def erase (p : Postings) (number : Nat) : Postings := ⟨p.byNumber.erase number⟩

/-- The bytes of documents and positions behind a document. -/
def encodeFrom (last : Nat) : List (Nat × List Nat) → List UInt8
  | [] => []
  | (number, positions) :: rest =>
    Wire.Varint.encode (number - last) ++ Wire.encodeAscending positions ++ encodeFrom number rest

/-- The bytes of a posting list. -/
def encode (p : Postings) : List UInt8 :=
  Wire.Varint.encode p.documentFrequency ++ encodeFrom 0 p.toList

/-- Why bytes are no posting list. -/
inductive Fault where
  | read (fault : Wire.ReadFault)
  /-- A document number is not greater than the one before it. -/
  | notAscending
  deriving DecidableEq, Repr

def Fault.toError : Fault → Error
  | .read fault => fault.toError
  | .notAscending => .serialization "posting list document numbers not ascending"

/-- Reads a number of documents behind a document. Gaps and numbers are taken modulo 2^32; only a
gap of zero is refused. -/
def decodeFrom : (count : Nat) → (last : Nat) → Wire.Decoding Fault (List (Nat × List Nat))
  | 0, _ => pure []
  | count + 1, last => do
    let gap := (← Wire.Read.varint.adapt .read) % Wire.word32
    if gap = 0 then throw .notAscending
    let number := (last + gap) % Wire.word32
    let positions ← Wire.Read.ascending.adapt .read
    return (number, positions) :: (← decodeFrom count number)

def decode : Wire.Decoding Fault Postings := do
  let count ← Wire.Read.varint.adapt .read
  return ⟨.ofList (← decodeFrom count 0)⟩

end Postings

end Concordance
