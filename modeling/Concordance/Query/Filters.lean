import Concordance.Query.Cursor
import Concordance.Query.Feature

/-!
# Filters

What a candidate of a query has to pass. Access lists, sets of documents and features are plans with
cursors in them; a candidate is asked of one after the other, and of none behind the first that
refuses it. So the cursors of a filter see different candidates, each in ascending order.
-/

namespace Concordance

/-- A plan with a cursor in it. -/
structure Walker where
  plan : Plan
  cursor : Cursor
  deriving Inhabited

namespace Walker

/-- A walker in front of a plan. -/
def start (p : Plan) : Walker := ⟨p, .start p⟩

/-- Moves to the least document from a number on. -/
def seek (w : Walker) (number : Nat) : Walker := { w with cursor := w.cursor.seek w.plan number }

def document (w : Walker) : Option Nat := w.cursor.document

/-- Sends a walker to a document; answers whether it stops there. -/
def stopsAt (number : Nat) (w : Walker) : Bool × Walker :=
  let w := w.seek number
  (w.document = some number, w)

/-- Sends walkers to a document, up to the first that answers as wanted; answers whether one did. -/
def anyStops (wanted : Bool) (number : Nat) : List Walker → Bool × List Walker
  | [] => (false, [])
  | w :: rest =>
    let (stops, w) := w.stopsAt number
    if stops = wanted then (true, w :: rest)
    else
      let (found, rest) := anyStops wanted number rest
      (found, w :: rest)

end Walker

/-- What a candidate has to pass. -/
structure Filters where
  /-- The documents of the users, if access counts. -/
  access : Option Walker := none
  /-- The only documents to rank, if there is such a choice. -/
  documentSet : Option Walker := none
  tests : List (List ColumnTest) := []
  /-- Candidates have all of these features, -/
  restrictions : List Walker := []
  /-- and none of these. -/
  exclusions : List Walker := []
  deriving Inhabited

namespace Filters

/-- Asks a candidate of a filter. -/
abbrev Ask := Filters → Nat → Bool × Filters

/-- Whether the users may see a candidate. -/
def askAccess : Ask := fun f number =>
  let (missed, access) := Walker.anyStops false number f.access.toList
  (!missed, { f with access := access.head? })

/-- Whether a candidate is one of the documents to rank. -/
def askDocumentSet : Ask := fun f number =>
  let (missed, documentSet) := Walker.anyStops false number f.documentSet.toList
  (!missed, { f with documentSet := documentSet.head? })

/-- Whether the metadata of a candidate pass. -/
def askTests (table : Table) : Ask := fun f number =>
  (ColumnTest.allHold f.tests table number, f)

/-- Whether a candidate has all the features that it must have. -/
def askRestrictions : Ask := fun f number =>
  let (missed, restrictions) := Walker.anyStops false number f.restrictions
  (!missed, { f with restrictions })

/-- Whether a candidate has none of the features that it must not have. -/
def askExclusions : Ask := fun f number =>
  let (excluded, exclusions) := Walker.anyStops true number f.exclusions
  (!excluded, { f with exclusions })

/-- Asks one filter after the other, up to the first that refuses. -/
def askAll : List Ask → Ask
  | [], f, _ => (true, f)
  | ask :: rest, f, number =>
    match ask f number with
    | (true, f) => askAll rest f number
    | (false, f) => (false, f)

/-- Whether a candidate passes. -/
def accept (table : Table) : Ask :=
  askAll [askAccess, askDocumentSet, askTests table, askRestrictions, askExclusions]

end Filters

end Concordance
