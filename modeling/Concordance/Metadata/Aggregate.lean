import Concordance.Document.Basic
import Concordance.Error
import Concordance.Text.Split

/-!
# Aggregates

The value of an aggregated column is not supplied but derived from the search terms of one type:
their number, their least or greatest position, or the position behind the greatest one.
-/

namespace Concordance

/-- What an aggregate computes. -/
inductive AggregateKind where
  /-- The number of occurrences. -/
  | count
  /-- The least position. -/
  | minPosition
  /-- The greatest position. -/
  | maxPosition
  /-- The position behind the greatest one. -/
  | nextPosition
  deriving DecidableEq, Repr, Inhabited

/-- An aggregate over the search terms of a type. -/
structure Aggregate where
  kind : AggregateKind
  type : String
  deriving DecidableEq, Repr, Inhabited

namespace Aggregate

/-- The name of an aggregate in a schema. -/
def kindName : AggregateKind → String
  | .count => "count"
  | .minPosition => "minpos"
  | .maxPosition => "maxpos"
  | .nextPosition => "nextpos"

/-- The value for a document; 0 if the type does not occur. -/
def compute (a : Aggregate) (doc : Document) : Nat :=
  let positions := (doc.search.filter (·.type == a.type)).map (·.position)
  match a.kind with
  | .count => positions.length
  | .minPosition => positions.min?.getD 0
  | .maxPosition => positions.max?.getD 0
  | .nextPosition => (positions.max?.map (· + 1)).getD 0

def display (a : Aggregate) : String := kindName a.kind ++ "(" ++ a.type ++ ")"

/-- Reads `name(type)`. -/
def parse (s : String) : Except Error Aggregate := do
  let s := Text.trim s
  let malformed := Error.config s!"malformed aggregator '{s}'"
  let (name, rest) ← match Text.splitOnce '(' s with
    | some parts => .ok parts
    | none => .error malformed
  let inner ← match rest.toList.reverse with
    | ')' :: inner => .ok (String.ofList inner.reverse)
    | _ => .error malformed
  let type := Text.trim inner
  if type.isEmpty then throw (.config s!"aggregator '{s}' without term type")
  match Text.lowerAscii (Text.trim name) with
  | "count" => return ⟨.count, type⟩
  | "minpos" => return ⟨.minPosition, type⟩
  | "maxpos" => return ⟨.maxPosition, type⟩
  | "nextpos" => return ⟨.nextPosition, type⟩
  | other => throw (.config s!"unknown aggregator '{other}'")

end Aggregate

end Concordance
