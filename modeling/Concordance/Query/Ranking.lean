import Concordance.Number.Double

/-!
# Rankings

A ranking keeps the best of the documents that it is shown, up to a capacity. Greater weights come
first, in the total order of doubles, and of equal weights the smaller document number.
-/

namespace Concordance

/-- A document with its weight. -/
structure Ranked where
  number : Nat
  weight : Double
  deriving Inhabited

/-- Whether a document stands before another one: weight downwards, then number upwards. -/
def Ranked.beats (a b : Ranked) : Bool :=
  (b.weight.totalCompare a.weight).then (compare a.number b.number) = .lt

/-- The best documents so far, the best one first. -/
structure Ranking where
  capacity : Nat
  best : List Ranked := []
  /-- How many documents were shown. -/
  collected : Nat := 0
  deriving Inhabited

namespace Ranking

/-- Puts a document in its place. -/
def place (r : Ranked) : List Ranked → List Ranked
  | [] => [r]
  | first :: rest => if r.beats first then r :: first :: rest else first :: place r rest

/-- The best documents with one more. Once there are enough, it takes the place of the worst of
them, if it beats that. -/
def retain (capacity : Nat) (best : List Ranked) (r : Ranked) : List Ranked :=
  if best.length < capacity then place r best
  else
    match best.getLast? with
    | some worst => if r.beats worst then place r best.dropLast else best
    | none => best

/-- Shows a document. -/
def collect (ranking : Ranking) (r : Ranked) : Ranking :=
  { ranking with
    best := retain ranking.capacity ranking.best r
    collected := ranking.collected + 1 }

end Ranking

end Concordance
