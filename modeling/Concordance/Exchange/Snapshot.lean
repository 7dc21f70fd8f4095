import Concordance.Catalog.Snapshot
import Concordance.Exchange.Document

/-!
# Exchange forms of snapshots

Postings, numberings, and everything that a snapshot holds: with documents in the order of their numbers, terms and users in
their own order.
-/

namespace Concordance.Exchange

/-- A posting: the document, the positions and their number. -/
def ofPosting (p : Nat × List Nat) : Json := .array [.ofNat p.1, ofNats p.2, .ofNat p.2.length]

def ofImage (i : NumberingImage) : Json :=
  .object [
    ("entries", ofList (fun (id, number) => .array [.text id, .ofNat number]) i.entries),
    ("free", ofNats i.free),
    ("next", .ofNat i.next)]

/-- An identifier with its number. -/
def numberedId : Json → Option (String × Nat)
  | .array [id, number] => do return (← id.asText, ← word32 number)
  | _ => none

def image (v : Json) : Option NumberingImage := do
  match ← v.asFields ["entries", "free", "next"] with
  | [entries, free, next] =>
    return {
      entries := ← Json.requiredField (Json.asList numberedId) entries
      free := ← Json.requiredField (Json.asList word32) free
      next := ← Json.requiredField word32 next }
  | _ => none

/-- The metadata of a document, in the order of the columns. -/
def ofMetadata (s : Snapshot) (number : Nat) : Json :=
  ofList (fun (c, index) => .array [.text c.name, ofNumeric (s.metadata.get number index)])
    s.metadata.schema.columns.zipIdx

def ofStored (s : Snapshot) (number : Nat) (d : StoredDocument) : Json :=
  .object [
    ("docno", .ofNat number),
    ("docid", .text d.id),
    ("mapped", ofOption .text (s.id? number)),
    ("attributes", ofTextMap d.attributes),
    ("metadata", ofMetadata s number),
    ("access", .ofTexts d.access),
    ("forward", ofForward d.forward),
    ("search", ofList (fun (t, positions) => ofTerm t [ofNats positions]) d.search.toList)]

def ofSnapshot (s : Snapshot) : Json :=
  .object [
    ("nof", .ofNat s.size),
    ("max", .ofNat s.maxNumber),
    ("generation", .ofNat s.generation),
    ("counter", .ofNat s.timestamp.counter),
    ("acl", .bool s.accessControl),
    ("schema", .text s.metadata.schema.display),
    ("docs", ofList (fun (number, d) => ofStored s number d) s.documents.toList),
    ("terms", ofList (fun (t, n) => ofTerm t [.ofNat n]) s.termStatistics),
    ("term_types", .ofTexts s.termTypes),
    ("users", ofList (fun (user, numbers) => .array [.text user, ofNats numbers.keys])
      s.access.byUser.toList)]

end Concordance.Exchange
