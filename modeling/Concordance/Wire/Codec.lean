import Concordance.Number.Double
import Concordance.SortedMap
import Concordance.Text.Utf8
import Concordance.Wire.Reader

/-!
# Record codecs

A codec writes a value as bytes and reads it back from the front of a longer byte string. Records
are written field by field without names: integers little-endian in a fixed width, lengths and
counts as eight bytes, the constructor of a choice as four bytes, an optional value behind one
byte.
-/

namespace Concordance.Wire

/-- Why bytes are not the record of a value. -/
inductive DecodeFault where
  /-- The bytes end inside a number. -/
  | endOfInput
  /-- The bytes end inside a byte string. -/
  | short
  | notUtf8 (fault : Text.Utf8.Fault)
  /-- The byte in front of an optional value is neither 0 nor 1. -/
  | presence (tag : Nat)
  /-- A choice has no constructor of this number. -/
  | choice (tag count : Nat)
  /-- The fields are there but are no value of the type. -/
  | value (error : Error)

/-- The error that damaged records are reported as. -/
def DecodeFault.toError : DecodeFault → Error
  | .endOfInput => .serialization "io error: unexpected end of file"
  | .short => .serialization "io error: "
  | .notUtf8 fault => .serialization ("string is not valid utf8: " ++ fault.message)
  | .presence tag => .serialization s!"tag for enum is not valid, found {tag}"
  | .choice tag count =>
    .serialization s!"invalid value: integer `{tag}`, expected variant index 0 <= i < {count}"
  | .value error => .serialization error.message

/-- A way to write values of a type and to read them back. -/
structure Codec (α : Type) where
  encode : α → List UInt8
  /-- Reads a value from the front of the bytes; answers it and the bytes behind it. -/
  decode : List UInt8 → Except DecodeFault (α × List UInt8)

namespace Codec

variable {α β : Type}

/-- Reads a value of a whole byte string; bytes behind it are ignored. -/
def decodeAll (c : Codec α) (bytes : List UInt8) : Except DecodeFault α :=
  (c.decode bytes).map (·.1)

/-- The codec of a type that takes part of the values of another one; reading fails outside that
part. -/
def refine (c : Codec α) (toInner : β → α) (ofInner : α → Except DecodeFault β) : Codec β where
  encode b := c.encode (toInner b)
  decode bytes := do
    let (a, rest) ← c.decode bytes
    return (← ofInner a, rest)

/-- The codec of a type whose values correspond to those of another one. -/
def imap (c : Codec α) (toInner : β → α) (ofInner : α → β) : Codec β where
  encode b := c.encode (toInner b)
  decode bytes := (c.decode bytes).map fun (a, rest) => (ofInner a, rest)

/-- A number in a fixed count of bytes. -/
def nat (width : Nat) : Codec Nat where
  encode n := littleEndian width n
  decode bytes :=
    if bytes.length < width then .error .endOfInput
    else .ok (ofLittleEndian (bytes.take width), bytes.drop width)

/-- A signed number in eight bytes. -/
def int : Codec Int :=
  (nat 8).imap (fun n => (n % word64).toNat) fun n =>
    if n < Number.half64 then n else (n : Int) - word64

/-- A double, as its bits. -/
def double : Codec Double :=
  (nat 8).imap (fun x => x.bits.toNat) fun n => ⟨n.toUInt64⟩

/-- Bytes behind their count. -/
def bytes : Codec (List UInt8) where
  encode b := littleEndian 8 b.length ++ b
  decode input := do
    let (length, rest) ← (nat 8).decode input
    if rest.length < length then .error .short else .ok (rest.take length, rest.drop length)

/-- A text behind its count of bytes. -/
def text : Codec String :=
  bytes.refine textBytes fun b =>
    match textOfBytes? b with
    | some t => .ok t
    | none => .error (.notUtf8 ((Text.Utf8.fault? b).getD ⟨0, none⟩))

/-- One value behind another. -/
def pair (a : Codec α) (b : Codec β) : Codec (α × β) where
  encode p := a.encode p.1 ++ b.encode p.2
  decode input := do
    let (x, rest) ← a.decode input
    let (y, rest) ← b.decode rest
    return ((x, y), rest)

/-- An optional value behind a byte that says whether it is there. -/
def option (c : Codec α) : Codec (Option α) where
  encode
    | none => [0]
    | some a => 1 :: c.encode a
  decode
    | [] => .error .endOfInput
    | 0 :: rest => .ok (none, rest)
    | 1 :: rest => (c.decode rest).map fun (a, rest) => (some a, rest)
    | tag :: _ => .error (.presence tag.toNat)

/-- Reads a number of values. -/
def decodeTimes (c : Codec α) : Nat → List UInt8 → Except DecodeFault (List α × List UInt8)
  | 0, rest => .ok ([], rest)
  | n + 1, input => do
    let (a, rest) ← c.decode input
    let (more, rest) ← decodeTimes c n rest
    return (a :: more, rest)

/-- A list behind its count. -/
def list (c : Codec α) : Codec (List α) where
  encode l := littleEndian 8 l.length ++ l.flatMap c.encode
  decode input := do
    let (count, rest) ← (nat 8).decode input
    c.decodeTimes count rest

/-- A map, as the list of its pairs. -/
def map {κ : Type} [Ord κ] [Std.TransOrd κ] (key : Codec κ) (value : Codec α) :
    Codec (SortedMap κ α) :=
  (list (pair key value)).imap SortedMap.toList fun pairs => .ofList pairs

def placeIn [BEq α] (values : List α) : Codec α :=
  (nat 4).refine (fun a => values.findIdx (· == a)) fun tag =>
    match values[tag]? with
    | some a => .ok a
    | none => .error (.choice tag values.length)

/-- The bytes of a value of a choice: the number of its constructor and what it carries. -/
def tagged (tag : Nat) (bytes : List UInt8) : List UInt8 := littleEndian 4 tag ++ bytes

/-- Reads what a constructor carries and builds the value. -/
def branch (c : Codec α) (build : α → β) (input : List UInt8) :
    Except DecodeFault (β × List UInt8) :=
  (c.decode input).map fun (a, rest) => (build a, rest)

/-- Reads a value of a choice by the reader of its constructor. -/
def decodeTagged (branches : List (List UInt8 → Except DecodeFault (β × List UInt8)))
    (input : List UInt8) : Except DecodeFault (β × List UInt8) := do
  let (tag, rest) ← (nat 4).decode input
  match branches[tag]? with
  | some read => read rest
  | none => .error (.choice tag branches.length)

end Codec

end Concordance.Wire
