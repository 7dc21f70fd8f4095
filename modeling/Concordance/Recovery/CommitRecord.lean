import Concordance.Catalog.Snapshot
import Concordance.Document.Codec

/-!
# Commit records and their frames

A commit is recorded with its operations and its statistics. In the journal every record stands in
a frame: a mark, the length of the record, the record, and the checksum of all of these. A frame
can be told from damaged bytes (`CommitRecord.unframe`), whatever stands behind it.
-/

namespace Concordance

open Wire (Codec DecodeFault)

/-- Steps of a migration in records. -/
def Alteration.codec : Codec Alteration where
  encode
    | .add name type => Codec.tagged 0 ((Codec.text.pair Schema.typeCodec).encode (name, type))
    | .remove name => Codec.tagged 1 (Codec.text.encode name)
    | .rename old new => Codec.tagged 2 ((Codec.text.pair .text).encode (old, new))
    | .retype name type => Codec.tagged 3 ((Codec.text.pair Schema.typeCodec).encode (name, type))
    | .clear name => Codec.tagged 4 (Codec.text.encode name)
  decode :=
    Codec.decodeTagged [
      Codec.branch (Codec.text.pair Schema.typeCodec) fun (name, type) => .add name type,
      Codec.branch .text .remove,
      Codec.branch (Codec.text.pair .text) fun (old, new) => .rename old new,
      Codec.branch (Codec.text.pair Schema.typeCodec) fun (name, type) => .retype name type,
      Codec.branch .text .clear]

def Operation.codec : Codec Operation where
  encode
    | .insert number id document =>
      Codec.tagged 0
        (((Codec.nat 4).pair (Codec.text.pair Document.codec)).encode (number, id, document))
    | .delete id => Codec.tagged 1 (Codec.text.encode id)
    | .deleteUser user => Codec.tagged 2 (Codec.text.encode user)
    | .define schema => Codec.tagged 3 (Schema.codec.encode schema)
    | .alter alterations => Codec.tagged 4 ((Codec.list Alteration.codec).encode alterations)
  decode :=
    Codec.decodeTagged [
      Codec.branch ((Codec.nat 4).pair (Codec.text.pair Document.codec))
        fun (number, id, document) => .insert number id document,
      Codec.branch .text .delete,
      Codec.branch .text .deleteUser,
      Codec.branch Schema.codec .define,
      Codec.branch (.list Alteration.codec) .alter]

/-- What the journal keeps of a commit. -/
structure CommitRecord where
  generation : Nat
  timestamp : Statistics.TimeStamp
  operations : List Operation
  statistics : Statistics.Record
  deriving Inhabited

namespace CommitRecord

def codec : Codec CommitRecord :=
  ((Codec.nat 8).pair (Statistics.TimeStamp.codec.pair
    ((Codec.list Operation.codec).pair Statistics.Record.codec))).imap
    (fun r => (r.generation, r.timestamp, r.operations, r.statistics))
    fun (generation, timestamp, operations, statistics) =>
      { generation, timestamp, operations, statistics }

/-- The mark that a frame starts with. -/
def mark : Nat := 0x4E524A51

/-- The count of bytes in a frame besides the record. -/
def frameOverhead : Nat := 12

/-- The frame of the bytes of a record. -/
def frameOf (payload : List UInt8) : List UInt8 :=
  Wire.withChecksum (Wire.littleEndian 4 mark ++ Wire.littleEndian 4 payload.length ++ payload)

/-- Why bytes do not start with a frame. -/
inductive FrameFault where
  | read (fault : Wire.ReadFault)
  | mark
  | incomplete
  | checksum
  | record (fault : DecodeFault)

/-- Reads a frame from the front of a count of bytes; answers the bytes of the record. -/
def deframe (available : Nat) : Wire.Decoding FrameFault (List UInt8) := do
  if (← (Wire.Read.fixed 4).adapt .read) ≠ mark then throw .mark
  let length ← (Wire.Read.fixed 4).adapt .read
  if available < length + frameOverhead then throw .incomplete
  let payload ← (Wire.Read.raw length).adapt .read
  if !(← Wire.Read.checksum.adapt .read) then throw .checksum
  return payload

/-- The frame of a commit; nothing if the record is too long for one. -/
def frame? (r : CommitRecord) : Option (List UInt8) :=
  let payload := codec.encode r
  if payload.length < Wire.word32 then some (frameOf payload) else none

/-- Reads the commit that bytes start with; answers it and the bytes behind its frame. -/
def unframe (bytes : List UInt8) : Except FrameFault (CommitRecord × List UInt8) := do
  let payload ← (deframe bytes.length ⟨bytes, Wire.Checksum.start, 0⟩).1
  let record ← (codec.decodeAll payload).mapError .record
  return (record, bytes.drop (payload.length + frameOverhead))

end CommitRecord

end Concordance
