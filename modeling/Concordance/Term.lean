import Concordance.Wire.Varint

/-!
# Terms and their occurrences

A term is a typed token, the unit of postings and of the forward index. Documents are numbered from
1 and so are the positions in a document; 0 stands for none.
-/

namespace Concordance

/-- A typed token. -/
structure Term where
  type : String
  value : String
  deriving DecidableEq, Repr, Inhabited

/-- Terms are ordered by type, then by value; texts by their bytes. -/
instance : Ord Term := ⟨compareLex (compareOn Term.type) (compareOn Term.value)⟩

instance : Std.TransOrd Term :=
  inferInstanceAs (Std.TransCmp (compareLex (compareOn Term.type) (compareOn Term.value)))

instance : Std.LawfulEqOrd Term where
  eq_of_compare {a b} h := by
    obtain ⟨ht, hv⟩ : compare a.type b.type = .eq ∧ compare a.value b.value = .eq := by
      simpa [compare, compareLex, compareOn, Ordering.then_eq_eq] using h
    cases a; cases b
    simp_all

/-- A term as shown to users. -/
def Term.display (t : Term) : String := t.type ++ " '" ++ t.value ++ "'"

/-- A term at a position of a document. -/
structure Occurrence where
  type : String
  value : String
  position : Nat
  deriving DecidableEq, Repr, Inhabited

def Occurrence.term (o : Occurrence) : Term := ⟨o.type, o.value⟩

/-- The greatest position a document may use. -/
def maxPosition : Nat := Wire.maxWord32 / 2

/-- A sum that stops at the greatest number of 32 bits. -/
def saturatingAdd (a b : Nat) : Nat := min (a + b) Wire.maxWord32

end Concordance
