import Concordance.Json.Basic
import Concordance.Metadata.Aggregate
import Concordance.Metadata.ColumnType
import Concordance.Wire.Codec

/-!
# Schemas and records

A schema is a list of columns with distinct names. The record of a document holds the values of all
columns one behind the other; `Schema.buildRecord` makes it from the values that a document assigns
and from the aggregates.
-/

namespace Concordance

/-- A metadata column. -/
structure Column where
  name : String
  type : ColumnType
  aggregate : Option Aggregate := none
  deriving DecidableEq, Repr, Inhabited

/-- What is wrong with a list of columns. -/
inductive ColumnsFault where
  | unnamed
  | duplicate (name : String)
  deriving DecidableEq, Repr

def ColumnsFault.toError : ColumnsFault → Error
  | .unnamed => .config "metadata column without name"
  | .duplicate name => .config s!"duplicate metadata column '{name}'"

/-- The first fault of columns that follow columns of given names. -/
def ColumnsFault.firstAfter (seen : List String) : List Column → Option ColumnsFault
  | [] => none
  | c :: rest =>
    if c.name = "" then some .unnamed
    else if c.name ∈ seen then some (.duplicate c.name)
    else firstAfter (seen ++ [c.name]) rest

/-- A list of columns with distinct names. -/
structure Schema where
  columns : List Column
  valid : ColumnsFault.firstAfter [] columns = none
  deriving DecidableEq

namespace Schema

/-- The schema without columns. -/
def empty : Schema := ⟨[], rfl⟩

instance : Inhabited Schema := ⟨empty⟩

def ofColumns (columns : List Column) : Except ColumnsFault Schema :=
  match h : ColumnsFault.firstAfter [] columns with
  | none => .ok ⟨columns, h⟩
  | some fault => .error fault

/-- Whether there is no column. -/
def isEmpty (s : Schema) : Bool := s.columns.isEmpty

/-- The width of a record in bytes. -/
def recordSize (s : Schema) : Nat := Number.total (s.columns.map (·.type.size))

/-- The place of a column in the list. -/
def indexOf? (s : Schema) (name : String) : Option Nat := s.columns.findIdx? (·.name == name)

/-- Where the bytes of a column start in a record. -/
def offset (s : Schema) (index : Nat) : Nat := Number.total ((s.columns.take index).map (·.type.size))

def decode (s : Schema) (record : List UInt8) (index : Nat) : Numeric :=
  match s.columns[index]? with
  | none => .uint 0
  | some c => c.type.decode ((record.drop (s.offset index)).take c.type.size)

/-- The record of a document without metadata. -/
def zeroRecord (s : Schema) : List UInt8 := List.replicate s.recordSize 0

/-- Why a document has no record. -/
inductive RecordFault where
  | unknownColumn (name : String)
  | aggregated (name : String)
  | misfit (name : String) (reason : Misfit)

def RecordFault.toError : RecordFault → Error
  | .unknownColumn name => .transaction s!"unknown metadata column '{name}'"
  | .aggregated name => .transaction s!"metadata column '{name}' is aggregated and cannot be assigned"
  | .misfit name reason => .transaction (s!"metadata column '{name}': " ++ reason.message)

def encodeAssigned (s : Schema) (name : String) (value : Numeric) :
    Except RecordFault (String × List UInt8) :=
  match s.columns.find? (·.name == name) with
  | none => .error (.unknownColumn name)
  | some c =>
    if c.aggregate.isSome then .error (.aggregated name)
    else
      match c.type.encode value with
      | .ok bytes => .ok (name, bytes)
      | .error reason => .error (.misfit name reason)

/-- The bytes of a column: the aggregate, the assigned value or zero. -/
def columnBytes (doc : Document) (assigned : List (String × List UInt8)) (c : Column) :
    List UInt8 :=
  match c.aggregate with
  | some a => c.type.encodeClamped (a.compute doc)
  | none => (assigned.lookup c.name).getD c.type.zeroBytes

/-- The record of a document. Assigned values are checked in name order. -/
def buildRecord (s : Schema) (doc : Document) : Except RecordFault (List UInt8) := do
  let assigned ← doc.metadata.toList.mapM fun (name, value) => s.encodeAssigned name value
  return s.columns.flatMap (columnBytes doc assigned)

/-! ## Text -/

def displayColumn (c : Column) : String :=
  c.name ++ " " ++ c.type.name ++
    match c.aggregate with
    | some a => " = " ++ a.display
    | none => ""

def display (s : Schema) : String := ", ".intercalate (s.columns.map displayColumn)

/-- Reads a column: `name TYPE`, or `name TYPE = aggregate`. -/
def parseColumn (declaration : String) : Except Error Column := do
  let malformed := Error.config s!"malformed metadata column '{declaration}'"
  let (head, aggregate) ← match Text.splitOnce '=' declaration with
    | some (head, aggregate) => do pure (Text.trim head, some (← Aggregate.parse aggregate))
    | none => pure (declaration, none)
  match Text.words head with
  | [] => throw malformed
  | [name] => throw (.config s!"metadata column '{name}' without type")
  | name :: type :: rest =>
    let type ← ColumnType.parse type
    if rest.isEmpty then return ⟨name, type, aggregate⟩ else throw malformed

/-- Reads columns between commas; empty declarations are skipped. -/
def parse (s : String) : Except Error Schema := do
  let declarations := ((Text.splitAll ',' s).map Text.trim).filter fun d => !d.isEmpty
  (ofColumns (← declarations.mapM parseColumn)).mapError ColumnsFault.toError

/-! ## JSON -/

def typeJsonName : ColumnType → String
  | .int8 => "Int8"
  | .uint8 => "UInt8"
  | .int16 => "Int16"
  | .uint16 => "UInt16"
  | .int32 => "Int32"
  | .uint32 => "UInt32"
  | .float32 => "Float32"

/-- All column types, in the order of their numbers in records. -/
def allTypes : List ColumnType := [.int8, .uint8, .int16, .uint16, .int32, .uint32, .float32]

def aggregateJsonName : AggregateKind → String
  | .count => "Count"
  | .minPosition => "MinPos"
  | .maxPosition => "MaxPos"
  | .nextPosition => "NextPos"

/-- All kinds of aggregates, in the order of their numbers in records. -/
def allAggregates : List AggregateKind := [.count, .minPosition, .maxPosition, .nextPosition]

def columnToJson (c : Column) : Json :=
  .object [
    ("name", .text c.name),
    ("data_type", .text (typeJsonName c.type)),
    ("aggregator", match c.aggregate with
      | some a => .object [(aggregateJsonName a.kind, .text a.type)]
      | none => .null)]

def toJson (s : Schema) : Json := .array (s.columns.map columnToJson)

def aggregateOfJson (v : Json) : Option Aggregate := do
  let (name, payload) ← v.asChoice
  return ⟨← allAggregates.find? (aggregateJsonName · == name), ← (← payload).asText⟩

def columnOfJson (v : Json) : Option Column := do
  match ← v.asFields ["name", "data_type", "aggregator"] with
  | [name, type, aggregate] =>
    let type ← Json.requiredField Json.asName type
    return {
      name := ← Json.requiredField Json.asText name
      type := ← allTypes.find? (typeJsonName · == type)
      aggregate := ← Json.optionalField none (Json.asOption aggregateOfJson) aggregate }
  | _ => none

def ofJson (v : Json) : Option Schema := do
  (ofColumns (← v.asList columnOfJson)).toOption

/-! ## Records -/

open Wire (Codec)

/-- Column types in records. -/
def typeCodec : Codec ColumnType := Codec.placeIn allTypes

def aggregateCodec : Codec Aggregate :=
  ((Codec.placeIn allAggregates).pair .text).imap (fun a => (a.kind, a.type))
    fun (kind, type) => ⟨kind, type⟩

def columnCodec : Codec Column :=
  (Codec.text.pair (typeCodec.pair (.option aggregateCodec))).imap
    (fun c => (c.name, c.type, c.aggregate)) fun (name, type, aggregate) =>
      ⟨name, type, aggregate⟩

def codec : Codec Schema :=
  (Codec.list columnCodec).refine columns fun l =>
    (ofColumns l).mapError fun fault => .value fault.toError

end Schema

end Concordance
