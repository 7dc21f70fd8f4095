import Concordance.SortedMap

/-!
# Document numbers

A `Numbering` maps document identifiers to numbers and back. A number given back by a deletion is
parked together with the generation that deleted its document; it becomes free once no reader of an
older generation is left. New identifiers take the smallest free number, else the next one.
-/

namespace Concordance

/-- The map between document identifiers and document numbers. -/
structure Numbering where
  numbers : SortedMap String Nat := ∅
  ids : SortedMap Nat String := ∅
  /-- The numbers that may be used again. -/
  free : SortedMap Nat Unit := ∅
  /-- The numbers given back, with the generations that gave them back, in that order. -/
  parked : List (Nat × Nat) := []
  /-- The smallest number never handed out. -/
  next : Nat := 1
  deriving DecidableEq, Inhabited

/-- A numbering as it is written to a checkpoint. -/
structure NumberingImage where
  entries : List (String × Nat)
  free : List Nat
  next : Nat
  deriving DecidableEq, Inhabited

namespace Numbering

/-- The greatest number ever handed out. -/
def maxNumber (n : Numbering) : Nat := n.next - 1

def number? (n : Numbering) (id : String) : Option Nat := n.numbers.get? id

def id? (n : Numbering) (number : Nat) : Option String := n.ids.get? number

/-- Maps an identifier to a given number. Numbers that are skipped become free. -/
def assign (n : Numbering) (id : String) (number : Nat) : Numbering :=
  let free := n.free.erase number
  let skipped := List.range' n.next (number - n.next)
  { n with
    numbers := n.numbers.insert id number
    ids := n.ids.insert number id
    free := skipped.foldl (fun f s => f.insert s ()) free
    next := max n.next (number + 1) }

/-- The number of an identifier, a new one if it has none: the smallest free number or else the
next one. -/
def allocate (n : Numbering) (id : String) : Nat × Numbering :=
  match n.number? id with
  | some number => (number, n)
  | none =>
    match n.free.keys with
    | number :: _ => (number, { n with free := n.free.erase number }.assign id number)
    | [] => (n.next, n.assign id n.next)

/-- Unmaps an identifier and parks its number. -/
def release (n : Numbering) (id : String) (generation : Nat) : Option (Nat × Numbering) :=
  (n.number? id).map fun number =>
    (number, { n with
      numbers := n.numbers.erase id
      ids := n.ids.erase number
      parked := n.parked ++ [(generation, number)] })

/-- Whether a number parked by a generation may be used again: no reader is open, or the oldest
open one is not older than that generation. -/
def releasable (oldestReader : Option Nat) (generation : Nat) : Bool :=
  match oldestReader with
  | some oldest => generation ≤ oldest
  | none => true

/-- Frees the parked numbers that no reader can refer to any more; answers how many there were. -/
def reclaim (n : Numbering) (oldestReader : Option Nat) : Nat × Numbering :=
  let (freed, kept) := n.parked.partition fun p => releasable oldestReader p.1
  (freed.length,
    { n with free := freed.foldl (fun f p => f.insert p.2 ()) n.free, parked := kept })

/-- The image of a numbering. Parked numbers are written as free: no reader outlives the process. -/
def image (n : Numbering) : NumberingImage where
  entries := n.ids.toList.map fun (number, id) => (id, number)
  free := (n.free.keys ++ n.parked.map (·.2)).mergeSort
  next := n.next

def ofImage (image : NumberingImage) : Numbering where
  numbers := .ofList image.entries
  ids := .ofList (image.entries.map fun (id, number) => (number, id))
  free := .ofList (image.free.map (·, ()))
  next := max image.next 1

end Numbering

end Concordance
