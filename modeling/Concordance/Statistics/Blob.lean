import Concordance.Statistics.Message

/-!
# Blobs

A message as bytes: a magic word, a version, encoding and origin, the timestamp, the part, the
change of the number of documents, the changes, and a checksum. Reading fails closed: whatever is
not exactly a blob is refused with a consistency error.
-/

namespace Concordance.Statistics

namespace Encoding

/-- The number of an encoding in a blob. -/
def tag : Encoding → Nat
  | standard => 0
  | compact => 1

def ofTag? : Nat → Option Encoding
  | 0 => some standard
  | 1 => some compact
  | _ => none

end Encoding

namespace Origin

/-- The number of an origin in a blob. -/
def tag : Origin → Nat
  | update => 0
  | register => 1
  | deregister => 2

def ofTag? : Nat → Option Origin
  | 0 => some update
  | 1 => some register
  | 2 => some deregister
  | _ => none

end Origin

namespace Blob

open Wire

/-- The first bytes of every blob. -/
def magic : List UInt8 := [0x51, 0x53, 0x54, 0x42]

def version : Nat := 1

/-! ## Writing -/

/-- A change with its term in full. -/
def encodeChange (c : Change) : List UInt8 :=
  encodeText c.term.type ++ encodeText c.term.value ++ Varint.encode (Varint.zigzag c.increment)

/-- The number of bytes that two texts share at their beginning, whole characters only. -/
def sharedBytes : List Char → List Char → Nat
  | a :: as, b :: bs => if a = b then a.utf8Size + sharedBytes as bs else 0
  | _, _ => 0

/-- The characters behind the first bytes of a text. -/
def dropBytes : Nat → List Char → List Char
  | 0, cs => cs
  | n, c :: cs => dropBytes (n - c.utf8Size) cs
  | _, [] => []

/-- Changes in term order behind a value: the place of the type in the table, the count of bytes
shared with the value before, the rest of the value, and the increment. -/
def encodeShared (types : List String) (previous : List Char) : List Change → List UInt8
  | [] => []
  | c :: rest =>
    let value := c.term.value.toList
    let shared := sharedBytes previous value
    Varint.encode (types.findIdx (· == c.term.type)) ++ Varint.encode shared ++
      encodeText (String.ofList (dropBytes shared value)) ++
      Varint.encode (Varint.zigzag c.increment) ++ encodeShared types value rest

/-- Changes in term order; changes of one term stay in their order. -/
def sortChanges (changes : List Change) : List Change :=
  changes.mergeSort fun a b => (compare a.term b.term).isLE

/-- The types of changes, each once, in order. -/
def typeTable (changes : List Change) : List String := ascending (changes.map (·.term.type))

def encodeChanges (encoding : Encoding) (changes : List Change) : List UInt8 :=
  match encoding with
  | .standard => changes.flatMap encodeChange
  | .compact =>
    let types := typeTable changes
    Varint.encode types.length ++ types.flatMap encodeText ++
      encodeShared types [] (sortChanges changes)

/-- A message without its checksum. -/
def encodeBody (m : Message) : List UInt8 :=
  magic ++ littleEndian 2 version ++ littleEndian 1 m.encoding.tag ++
    littleEndian 1 m.origin.tag ++ littleEndian 8 m.timestamp.seconds ++
    littleEndian 8 m.timestamp.counter ++ littleEndian 4 m.part ++
    Varint.encode (Varint.zigzag m.documents) ++ Varint.encode m.changes.length ++
    encodeChanges m.encoding m.changes

def encode (m : Message) : List UInt8 := withChecksum (encodeBody m)

/-! ## Reading -/

/-- Why bytes are no blob. -/
inductive Fault where
  /-- The bytes end early, or a part of them cannot be read. -/
  | truncated
  | notABlob
  | version (found : Nat)
  | encoding (found : Nat)
  | origin (found : Nat)
  | checksum
  | trailing
  deriving DecidableEq, Repr

def Fault.message : Fault → String
  | .truncated => "truncated statistics blob"
  | .notABlob => "not a statistics blob"
  | .version found => s!"unsupported statistics blob version {found}"
  | .encoding found => s!"unknown statistics blob encoding {found}"
  | .origin found => s!"unknown statistics blob origin {found}"
  | .checksum => "statistics blob checksum mismatch"
  | .trailing => "trailing bytes after statistics blob"

/-- Every fault of a blob is a consistency error. -/
def Fault.toError (f : Fault) : Error := .consistency f.message

/-- A read of the byte layer; all its faults mean that the blob is truncated. -/
def ofRead {α : Type} (read : Read α) : Decoding Fault α := read.adapt fun _ => .truncated

/-- Reads a change with its term in full. -/
def decodeChange : Read Change := do
  let type ← Read.text
  let value ← Read.text
  return ⟨⟨type, value⟩, ← Read.signed⟩

/-- The first characters of a text that take a number of bytes; nothing if the count is no sum of
whole characters. -/
def takeBytes? : Nat → List Char → Option (List Char)
  | 0, _ => some []
  | _ + 1, [] => none
  | n + 1, c :: cs =>
    if c.utf8Size ≤ n + 1 then (takeBytes? (n + 1 - c.utf8Size) cs).map (c :: ·) else none

/-- Reads changes written behind a value. -/
def decodeShared (types : List String) : (count : Nat) → (previous : List Char) →
    Decoding Fault (List Change)
  | 0, _ => pure []
  | count + 1, previous => do
    let index ← ofRead Read.varint
    let shared ← ofRead Read.varint
    let suffix ← ofRead Read.text
    let increment ← ofRead Read.signed
    match types[index]?, takeBytes? shared previous with
    | some type, some beginning =>
      let value := beginning ++ suffix.toList
      return ⟨⟨type, String.ofList value⟩, increment⟩ :: (← decodeShared types count value)
    | _, _ => throw .truncated

def decodeChanges (encoding : Encoding) (count : Nat) : Decoding Fault (List Change) :=
  match encoding with
  | .standard => ofRead (Read.times count decodeChange)
  | .compact => do
    let types ← ofRead (do Read.times (← Read.varint) Read.text)
    decodeShared types count []

def decodeFrom (length : Nat) : Decoding Fault Message := do
  if (← ofRead (Read.raw 4)) ≠ magic then throw .notABlob
  let found ← ofRead (Read.fixed 2)
  if found ≠ version then throw (.version found)
  let tag ← ofRead (Read.fixed 1)
  let some encoding := Encoding.ofTag? tag | throw (.encoding tag)
  let tag ← ofRead (Read.fixed 1)
  let some origin := Origin.ofTag? tag | throw (.origin tag)
  let seconds ← ofRead (Read.fixed 8)
  let counter ← ofRead (Read.fixed 8)
  let part ← ofRead (Read.fixed 4)
  let documents ← ofRead Read.signed
  let count ← ofRead Read.varint
  let changes ← decodeChanges encoding count
  if !(← ofRead Read.checksum) then throw .checksum
  if (← get).position + 4 ≠ length then throw .trailing
  return ⟨⟨seconds, counter⟩, part, origin, encoding, documents, changes⟩

def decode (bytes : List UInt8) : Except Fault Message :=
  (decodeFrom bytes.length { rest := bytes }).1

def read (bytes : List UInt8) : Except Error Message := (decode bytes).mapError Fault.toError

end Blob

end Concordance.Statistics
