import Concordance.SortedMap

/-!
# Readers

A view of a snapshot is registered, by the generation of the snapshot, for as long as it is held. A
snapshot may have several views, so generations are counted.
-/

namespace Concordance

/-- The generations that views are held of, with how many there are. -/
structure Readers where
  counts : SortedMap Nat Nat := ∅
  deriving DecidableEq, Inhabited

namespace Readers

/-- Registers a view. -/
def acquire (r : Readers) (generation : Nat) : Readers :=
  ⟨r.counts.insert generation (r.counts.getD generation 0 + 1)⟩

/-- Takes a view off; the last one of a generation takes the generation with it. -/
def release (r : Readers) (generation : Nat) : Readers :=
  match r.counts.get? generation with
  | none => r
  | some count =>
    if count - 1 = 0 then ⟨r.counts.erase generation⟩
    else ⟨r.counts.insert generation (count - 1)⟩

/-- The oldest generation that a view is held of. -/
def oldest (r : Readers) : Option Nat := r.counts.keys.head?

end Readers

end Concordance
