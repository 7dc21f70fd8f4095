import Concordance.Document.Stored
import Concordance.Statistics.Basic
import Concordance.Wire.Codec

/-!
# Documents in records

The codecs of numeric values, of documents as they are handed in and of documents as they are
stored.
-/

namespace Concordance

open Wire (Codec DecodeFault)

def Numeric.codec : Codec Numeric where
  encode
    | .int n => Codec.tagged 0 (Codec.int.encode n)
    | .uint n => Codec.tagged 1 ((Codec.nat 8).encode n)
    | .double x => Codec.tagged 2 (Codec.double.encode x)
  decode :=
    Codec.decodeTagged
      [Codec.branch .int .int, Codec.branch (.nat 8) .uint, Codec.branch .double .double]

/-- Term occurrences in records. -/
def Occurrence.codec : Codec Occurrence :=
  (Codec.text.pair (Codec.text.pair (.nat 4))).imap (fun o => (o.type, o.value, o.position))
    fun (type, value, position) => ⟨type, value, position⟩

def Document.codec : Codec Document :=
  ((Codec.map .text .text).pair ((Codec.map .text Numeric.codec).pair
    ((Codec.list Occurrence.codec).pair
      ((Codec.list Occurrence.codec).pair (.list .text))))).imap
    (fun d => (d.attributes, d.metadata, d.search, d.forward, d.access))
    fun (attributes, metadata, search, forward, access) =>
      { attributes, metadata, search, forward, access }

/-- Entries of the forward index in records. -/
def ForwardEntry.codec : Codec ForwardEntry :=
  ((Codec.nat 4).pair .text).imap (fun e => (e.position, e.value)) fun (p, v) => ⟨p, v⟩

/-- Stored documents in records. -/
def StoredDocument.codec : Codec StoredDocument :=
  (Codec.text.pair ((Codec.map .text .text).pair
    ((Codec.map .text (.list ForwardEntry.codec)).pair
      ((Codec.map Statistics.termCodec (.list (.nat 4))).pair (.list .text))))).imap
    (fun d => (d.id, d.attributes, d.forward, d.search, d.access))
    fun (id, attributes, forward, search, access) => { id, attributes, forward, search, access }

end Concordance
