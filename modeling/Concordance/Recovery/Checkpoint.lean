import Concordance.Disk.Volume
import Concordance.Recovery.CommitRecord
import Concordance.Statistics.Basic

/-!
# Checkpoints

A checkpoint is a file with the whole state of an index and its statistics history. It is written
under another name and then renamed, so there is always either the old or the new one. Access lists
are not part of it; they follow from the documents.
-/

namespace Concordance

open Wire (Codec)

/-- The name of the checkpoint's file. -/
def checkpointFile : String := "checkpoint.bin"

/-- The name of the file that a checkpoint is written to. -/
def checkpointDraft : String := "checkpoint.tmp"

/-- A state read from a checkpoint. -/
structure Checkpoint where
  snapshot : Snapshot
  records : List Statistics.Record
  /-- The timestamp of the newest record that was dropped before. -/
  horizon : Option Statistics.TimeStamp
  deriving Inhabited

def NumberingImage.codec : Codec NumberingImage :=
  ((Codec.list (Codec.text.pair (.nat 4))).pair ((Codec.list (.nat 4)).pair (.nat 4))).imap
    (fun i => (i.entries, i.free, i.next)) fun (entries, free, next) => { entries, free, next }

namespace Checkpoint

/-- What a checkpoint says besides metadata and postings. -/
structure Catalog where
  generation : Nat
  timestamp : Statistics.TimeStamp
  schema : Schema
  numbering : NumberingImage
  documents : List (Nat × StoredDocument)
  records : List Statistics.Record
  horizon : Option Statistics.TimeStamp
  deriving Inhabited

def Catalog.codec : Codec Catalog :=
  ((Codec.nat 8).pair (Statistics.TimeStamp.codec.pair (Schema.codec.pair
    (NumberingImage.codec.pair ((Codec.list ((Codec.nat 4).pair StoredDocument.codec)).pair
      ((Codec.list Statistics.Record.codec).pair (.option Statistics.TimeStamp.codec))))))).imap
    (fun c => (c.generation, c.timestamp, c.schema, c.numbering, c.documents, c.records, c.horizon))
    fun (generation, timestamp, schema, numbering, documents, records, horizon) =>
      { generation, timestamp, schema, numbering, documents, records, horizon }

/-- The mark that a checkpoint starts with. -/
def mark : Nat := 0x504B4351

def version : Nat := 2

def catalogOf (s : Snapshot) (h : Statistics.History) : Catalog where
  generation := s.generation
  timestamp := s.timestamp
  schema := s.metadata.schema
  numbering := s.numbering.image
  documents := s.documents.toList
  records := h.records
  horizon := h.horizon

def encodeTerm (entry : Term × Postings) : List UInt8 :=
  Wire.encodeText entry.1.type ++ Wire.encodeText entry.1.value ++ entry.2.encode

def encode (s : Snapshot) (h : Statistics.History) : List UInt8 :=
  Wire.withChecksum <|
    Wire.littleEndian 4 mark ++
    Wire.littleEndian 2 version ++
    Wire.lengthPrefixed (Catalog.codec.encode (catalogOf s h)) ++
    Wire.lengthPrefixed (s.metadata.toBytes s.maxNumber) ++
    Wire.Varint.encode s.postings.size ++
    s.postings.toList.flatMap encodeTerm

/-! ## Reading -/

/-- Why bytes are no checkpoint. -/
inductive Fault where
  | read (fault : Wire.ReadFault)
  | mark
  | version (found : Nat)
  | catalog (fault : Wire.DecodeFault)
  /-- The metadata are not a whole number of records. -/
  | metadata
  | postings (fault : Postings.Fault)
  | checksum

def Fault.toError : Fault → Error
  | .read fault => fault.toError
  | .mark => .storage "checkpoint file has a bad magic number"
  | .version found => .storage s!"unsupported checkpoint version {found}"
  | .catalog fault => fault.toError
  | .metadata => .serialization "metadata records do not match the schema record size"
  | .postings fault => fault.toError
  | .checksum => .storage "checkpoint checksum mismatch"

/-- Reads a number of terms with their posting lists. -/
def decodeTerms : (count : Nat) → Wire.Decoding Fault (List (Term × Postings))
  | 0 => pure []
  | count + 1 => do
    let type ← Wire.Read.text.adapt .read
    let value ← Wire.Read.text.adapt .read
    let list ← Postings.decode.adapt .postings
    return (⟨type, value⟩, list) :: (← decodeTerms count)

/-- The state of a catalog with its metadata and postings. -/
def assemble (accessControl : Bool) (catalog : Catalog) (metadata : Table)
    (postings : List (Term × Postings)) : Checkpoint :=
  let documents := SortedMap.ofList catalog.documents
  { snapshot := {
      generation := catalog.generation
      timestamp := catalog.timestamp
      accessControl
      numbering := .ofImage catalog.numbering
      documents
      postings := .ofList postings
      metadata
      access := Snapshot.rebuiltAccess documents }
    records := catalog.records
    horizon := catalog.horizon }

def decodeAll (accessControl : Bool) : Wire.Decoding Fault Checkpoint := do
  if (← (Wire.Read.fixed 4).adapt .read) ≠ mark then throw .mark
  let found ← (Wire.Read.fixed 2).adapt .read
  if found ≠ version then throw (.version found)
  let catalog ← match Catalog.codec.decodeAll (← Wire.Read.bytes.adapt .read) with
    | .ok catalog => pure catalog
    | .error fault => throw (.catalog fault)
  let metadata ← match Table.ofBytes? catalog.schema (← Wire.Read.bytes.adapt .read) with
    | some metadata => pure metadata
    | none => throw .metadata
  let postings ← decodeTerms (← Wire.Read.varint.adapt .read)
  if !(← Wire.Read.checksum.adapt .read) then throw .checksum
  return assemble accessControl catalog metadata postings

/-- The state that the bytes of a checkpoint stand for. -/
def decode (accessControl : Bool) (bytes : List UInt8) : Except Fault Checkpoint :=
  (decodeAll accessControl ⟨bytes, Wire.Checksum.start, 0⟩).1

/-! ## Files -/

def writeDraft (bytes : List UInt8) : Disk Unit := do
  Disk.create checkpointDraft
  Disk.write checkpointDraft bytes
  Disk.close checkpointDraft

/-- Puts the draft in the place of the checkpoint. -/
def install : Disk Unit := do
  Disk.rename checkpointDraft checkpointFile
  Disk.syncDirectory

def write (s : Snapshot) (h : Statistics.History) : Disk Unit := do
  writeDraft (encode s h)
  install

/-- Reads the checkpoint, if there is one. -/
def read? (accessControl : Bool) : Disk (Option Checkpoint) := do
  if !(← Disk.exists? checkpointFile) then return none
  match decode accessControl (← Disk.read checkpointFile) with
  | .ok checkpoint => return some checkpoint
  | .error fault => throw fault.toError

end Checkpoint

end Concordance
