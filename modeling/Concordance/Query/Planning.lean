import Concordance.Catalog.Snapshot
import Concordance.Query.Pattern
import Concordance.Query.Plan

/-!
# Planning

Makes a pattern ready for a snapshot. Terms that no document has and structures without parts become
the plan of nothing; malformed structures are refused, also those without parts.
-/

namespace Concordance

/-- Why a pattern cannot be planned. -/
inductive PatternFault where
  | noArgument (operator : Operator)
  | excess (operator : Operator) (cardinality arity : Nat)
  | notTwo (operator : Operator) (count : Nat)
  | unknownColumn (name : String)
  deriving DecidableEq, Repr

/-- The error that a malformed pattern is reported as. -/
def PatternFault.toError : PatternFault → Error
  | .noArgument operator => .config s!"{operator.name} needs a delimiter and at least one argument"
  | .excess operator cardinality arity =>
    .config s!"cardinality {cardinality} of {operator.name} exceeds its {arity} arguments"
  | .notTwo operator count => .config s!"{operator.name} needs exactly 2 arguments, got {count}"
  | .unknownColumn name => .config s!"unknown metadata column '{name}' in docfield"

namespace Pattern

/-- Checks the number of parts of a structure. -/
def checkParts (operator : Operator) (cardinality count : Nat) : Except PatternFault Unit :=
  let arity := if operator.isDelimited then count - 1 else count
  if operator.isDelimited ∧ count < 2 then .error (.noArgument operator)
  else if arity < cardinality then .error (.excess operator cardinality arity)
  else if (operator = .difference ∨ operator = .inside) ∧ count ≠ 0 ∧ count ≠ 2 then
    .error (.notTwo operator count)
  else .ok ()

/-- The plan of a structure whose parts are planned. -/
def join (operator : Operator) (range cardinality : Nat) (parts : List Plan) : Plan :=
  match operator, parts with
  | _, [] => .nothing
  | .sequence, parts => .sequence (.ordered range) parts none
  | .adjacentSequence, parts => .sequence .adjacent parts none
  | .delimitedSequence, delimiter :: parts => .sequence (.ordered range) parts (some delimiter)
  | .window, parts => .ofWindow range cardinality parts none
  | .delimitedWindow, delimiter :: parts => .ofWindow range cardinality parts (some delimiter)
  | .union, parts => .union parts
  | .intersection, parts => .intersection parts
  | .presence, parts => .ofPresence cardinality parts
  | .difference, first :: rest => .difference first (rest.headD .nothing)
  | .inside, first :: rest => .inside first (rest.headD .nothing)

def columnIndex (s : Snapshot) (name : String) : Except PatternFault Nat :=
  match s.metadata.schema.indexOf? name with
  | some index => .ok index
  | none => .error (.unknownColumn name)

mutual

/-- Makes a pattern ready for a snapshot. -/
def plan (s : Snapshot) : Pattern → Except PatternFault Plan
  | .term t => .ok (((s.postings.get? t).map Plan.term).getD .nothing)
  | .field start stop => do
    return .field (← columnIndex s start) (← columnIndex s stop) s.metadata s.maxNumber s.size
  | .structure operator range cardinality parts => do
    checkParts operator cardinality parts.length
    return join operator range cardinality (← planAll s parts)

/-- Makes patterns ready, up to the first malformed one. -/
def planAll (s : Snapshot) : List Pattern → Except PatternFault (List Plan)
  | [] => .ok []
  | p :: rest => do
    let first ← plan s p
    return first :: (← planAll s rest)

end

end Pattern

end Concordance
