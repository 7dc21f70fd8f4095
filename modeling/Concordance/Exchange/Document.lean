import Concordance.Document.Stored
import Concordance.Exchange.Value
import Concordance.Metadata.Schema

/-!
# Exchange forms of documents and schemas

A document is an object with its attributes, metadata, term occurrences and users, all of them
optional when it is read. A reader also takes texts by type, and adds their words to the document.
-/

namespace Concordance.Exchange

def ofOccurrence (o : Occurrence) : Json := ofTerm o.term [.ofNat o.position]

def ofDocument (d : Document) : Json :=
  .object [
    ("attributes", ofTextMap d.attributes),
    ("metadata", .object (d.metadata.toList.map fun (name, x) => (name, ofNumeric x))),
    ("search", ofList ofOccurrence d.search),
    ("forward", ofList ofOccurrence d.forward),
    ("access", .ofTexts d.access)]

/-- An entry of the forward index. -/
def ofEntry (e : ForwardEntry) : Json := .array [.ofNat e.position, .text e.value]

def ofForward (m : SortedMap String (List ForwardEntry)) : Json :=
  .object (m.toList.map fun (type, entries) => (type, ofList ofEntry entries))

/-- A schema with its sizes and its text. -/
def ofSchema (s : Schema) : Json :=
  let column (c : Column) : Json :=
    .array [.text c.name, .text c.type.name, .ofNat c.type.size,
      ofOption (fun a => .text a.display) c.aggregate]
  .object [
    ("columns", ofList column s.columns),
    ("record_size", .ofNat s.recordSize),
    ("empty", .bool s.isEmpty),
    ("display", .text s.display)]

def occurrence : Json → Option Occurrence
  | .array [type, value, position] => do
    return ⟨← type.asText, ← value.asText, ← word32 position⟩
  | _ => none

/-- A text with the type of its words. -/
def typedText : Json → Option (String × String)
  | .array [type, text] => do return (← type.asText, ← text.asText)
  | _ => none

def document (v : Json) : Option Document := do
  match ← v.asFields ["attributes", "metadata", "search", "forward", "text", "access"] with
  | [attributes, metadata, search, forward, texts, access] =>
    let plain : Document := {
      attributes := ← Json.optionalField ∅ (Json.asMap Json.asText) attributes
      metadata := ← Json.optionalField ∅ (Json.asMap numeric) metadata
      search := ← Json.optionalField [] (Json.asList occurrence) search
      forward := ← Json.optionalField [] (Json.asList occurrence) forward
      access := ← Json.optionalField [] (Json.asList Json.asText) access }
    let texts ← Json.optionalField [] (Json.asList typedText) texts
    return texts.foldl (fun d (type, text) => d.addText type text) plain
  | _ => none

end Concordance.Exchange
